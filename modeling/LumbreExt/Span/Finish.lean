import LumbreExt.Span.Basic

/-!
# What one finish does

The inversion of `lumbreSpanFinish` (`lumbreSpanFinish_cases`): the span is filtered, or its encoding
overflows, or it is handed to `lumbre_ringbuf_write`. `LumbreSpan.Filtered` and
`LumbreSpan.recorded` are the condition of the first and the span that the other two encode. Every
later result about finished spans goes through this theorem.

`LumbreSpan.identity` is what `lumbre_span_start` writes into a span, and no setter and no finish
changes.
-/

namespace LumbreExt

namespace LumbreSpan

/-- The span is too short to be recorded. The root span (`HTTP_IN`) never is. -/
def Filtered (span : LumbreSpan) (minDurationNs clockNs : UInt64) : Prop :=
  0 < minDurationNs ∧ clockNs - span.startNs < minDurationNs ∧ span.type ≠ lumbreSpanHttpIn

instance (span : LumbreSpan) (minDurationNs clockNs : UInt64) :
    Decidable (span.Filtered minDurationNs clockNs) :=
  inferInstanceAs (Decidable (_ ∧ _ ∧ _))

/-- The length of the query as it is recorded: a database query is cut to the maximum, if one is
set. -/
def truncatedQueryLen (span : LumbreSpan) (maxQueryLen : UInt32) : UInt32 :=
  if span.type = lumbreSpanDb ∧ 0 < maxQueryLen ∧ maxQueryLen < span.queryLen then maxQueryLen
  else span.queryLen

/-- The span with its duration. -/
def timed (span : LumbreSpan) (clockNs : UInt64) : LumbreSpan :=
  { span with durationNs := clockNs - span.startNs }

/-- The span as it is recorded: with its duration, and the query truncated. -/
def recorded (span : LumbreSpan) (maxQueryLen : UInt32) (clockNs : UInt64) : LumbreSpan :=
  { span.timed clockNs with queryLen := span.truncatedQueryLen maxQueryLen }

lemma recorded_eq (span : LumbreSpan) (maxQueryLen : UInt32) (clockNs : UInt64) :
    (if (span.timed clockNs).type = lumbreSpanDb ∧ maxQueryLen > 0 ∧
          (span.timed clockNs).queryLen > maxQueryLen then
        { span.timed clockNs with queryLen := maxQueryLen }
      else span.timed clockNs) = span.recorded maxQueryLen clockNs := by
  have hcond : ((span.timed clockNs).type = lumbreSpanDb ∧ maxQueryLen > 0 ∧
      (span.timed clockNs).queryLen > maxQueryLen) ↔
        (span.type = lumbreSpanDb ∧ 0 < maxQueryLen ∧ maxQueryLen < span.queryLen) := Iff.rfl
  rw [recorded, truncatedQueryLen]
  rcases Decidable.em (span.type = lumbreSpanDb ∧ 0 < maxQueryLen ∧ maxQueryLen < span.queryLen)
    with h | h
  · rw [if_pos h, if_pos (hcond.mpr h)]
  · rw [if_neg h, if_neg (mt hcond.mp h)]
    rfl

/-- What identifies a span: the fields `lumbre_span_start` fills. -/
structure Identity where
  type : LumbreSpanTypeT
  traceId : TraceId
  spanId : UInt64
  parentId : UInt64
  startNs : UInt64

/-- The identity of a span. -/
def identity (span : LumbreSpan) : Identity :=
  ⟨span.type, span.traceId, span.spanId, span.parentId, span.startNs⟩

end LumbreSpan

/-- Encoding leaves the capacity of the buffer as it is. -/
lemma lumbreSpanEncode_capacity (span : LumbreSpan) (b : LumbreMsgpackBuf) :
    (lumbreSpanEncode span b).2.capacity = b.capacity := by
  have hpack : ∀ (cs : List PackCall) (b : LumbreMsgpackBuf),
      (packOrFail cs b).2.capacity = b.capacity := by
    intro cs
    induction cs with
    | nil => exact fun _ => rfl
    | cons c cs ih =>
        intro b
        have hrun : (c.run b).2.capacity = b.capacity := by rw [c.run_eq, packAll_capacity]
        rw [packOrFail]
        split_ifs
        · exact hrun
        · exact (ih _).trans hrun
  exact hpack _ b

/-- The context with the parent restored. -/
def LumbreContext.unwind (ctx : LumbreContext) (span : LumbreSpan) : LumbreContext :=
  { ctx with currentParentId := span.parentId }

section finish

variable (span : LumbreSpan) (rb : LumbreRingbuf) (mpBuf : LumbreMsgpackBuf) (ctx : LumbreContext)
  (minDurationNs clockNs : UInt64) (maxQueryLen : UInt32)

/-- **A finish filters the span, or fails to encode it, or hands it to the ring.** -/
theorem lumbreSpanFinish_cases :
    (span.Filtered minDurationNs clockNs ∧
      lumbreSpanFinish span rb mpBuf ctx minDurationNs maxQueryLen clockNs =
        { rc := 1, span := span.timed clockNs, rb, mpBuf, ctx := ctx.unwind span,
          handed := none }) ∨
    (¬ span.Filtered minDurationNs clockNs ∧ ∃ rc b,
      lumbreSpanEncode (span.recorded maxQueryLen clockNs) (lumbreMsgpackReset mpBuf) = (rc, b) ∧
      ((rc < 0 ∧
        lumbreSpanFinish span rb mpBuf ctx minDurationNs maxQueryLen clockNs =
          { rc := -1, span := span.recorded maxQueryLen clockNs, rb, mpBuf := b,
            ctx := ctx.unwind span, handed := none }) ∨
      (¬ rc < 0 ∧
        lumbreSpanFinish span rb mpBuf ctx minDurationNs maxQueryLen clockNs =
          { rc := (lumbreRingbufWrite rb b.buf b.pos.toUInt32).1
            span := span.recorded maxQueryLen clockNs
            rb := (lumbreRingbufWrite rb b.buf b.pos.toUInt32).2
            mpBuf := b
            ctx := ctx.unwind span
            handed := some (b.buf.load 0 b.pos.toUInt32.toNat) }))) := by
  obtain ⟨rc, b, hencode⟩ : ∃ rc b, lumbreSpanEncode (span.recorded maxQueryLen clockNs)
      (lumbreMsgpackReset mpBuf) = (rc, b) := ⟨_, _, rfl⟩
  have hfinish : lumbreSpanFinish span rb mpBuf ctx minDurationNs maxQueryLen clockNs =
      if span.Filtered minDurationNs clockNs then
        { rc := 1, span := span.timed clockNs, rb, mpBuf, ctx := ctx.unwind span,
          handed := none }
      else if rc < 0 then
        { rc := -1, span := span.recorded maxQueryLen clockNs, rb, mpBuf := b,
          ctx := ctx.unwind span, handed := none }
      else
        { rc := (lumbreRingbufWrite rb b.buf b.pos.toUInt32).1
          span := span.recorded maxQueryLen clockNs
          rb := (lumbreRingbufWrite rb b.buf b.pos.toUInt32).2
          mpBuf := b
          ctx := ctx.unwind span
          handed := some (b.buf.load 0 b.pos.toUInt32.toNat) } := by
    have hrc : rc = (lumbreSpanEncode (span.recorded maxQueryLen clockNs)
        (lumbreMsgpackReset mpBuf)).1 := by rw [hencode]
    have hb : b = (lumbreSpanEncode (span.recorded maxQueryLen clockNs)
        (lumbreMsgpackReset mpBuf)).2 := by rw [hencode]
    rw [hrc, hb, ← LumbreSpan.recorded_eq]
    rfl
  rw [hfinish]
  rcases Decidable.em (span.Filtered minDurationNs clockNs) with hfilter | hkeep
  · exact Or.inl ⟨hfilter, if_pos hfilter⟩
  rw [if_neg hkeep]
  rcases Decidable.em (rc < 0) with hover | hfits
  · exact Or.inr ⟨hkeep, rc, b, hencode, Or.inl ⟨hover, if_pos hover⟩⟩
  · exact Or.inr ⟨hkeep, rc, b, hencode, Or.inr ⟨hfits, if_neg hfits⟩⟩

/-- Whatever becomes of the span, the context is unwound to its parent. -/
lemma lumbreSpanFinish_ctx :
    (lumbreSpanFinish span rb mpBuf ctx minDurationNs maxQueryLen clockNs).ctx =
      ctx.unwind span := by
  rcases lumbreSpanFinish_cases span rb mpBuf ctx minDurationNs clockNs maxQueryLen with
    ⟨_, h⟩ | ⟨_, _, _, _, ⟨_, h⟩ | ⟨_, h⟩⟩ <;> rw [h]

/-- A finished span keeps its identity, and its duration is the time since its start. -/
lemma lumbreSpanFinish_span :
    (lumbreSpanFinish span rb mpBuf ctx minDurationNs maxQueryLen clockNs).span.identity =
        span.identity ∧
      (lumbreSpanFinish span rb mpBuf ctx minDurationNs maxQueryLen clockNs).span.durationNs =
        clockNs - span.startNs := by
  rcases lumbreSpanFinish_cases span rb mpBuf ctx minDurationNs clockNs maxQueryLen with
    ⟨_, h⟩ | ⟨_, _, _, _, ⟨_, h⟩ | ⟨_, h⟩⟩ <;> rw [h] <;> exact ⟨rfl, rfl⟩

/-- A finish never changes the capacity of the msgpack buffer. -/
lemma lumbreSpanFinish_capacity :
    (lumbreSpanFinish span rb mpBuf ctx minDurationNs maxQueryLen clockNs).mpBuf.capacity =
      mpBuf.capacity := by
  have hencode := lumbreSpanEncode_capacity (span.recorded maxQueryLen clockNs)
    (lumbreMsgpackReset mpBuf)
  rcases lumbreSpanFinish_cases span rb mpBuf ctx minDurationNs clockNs maxQueryLen with
    ⟨_, h⟩ | ⟨_, _, b, hb, ⟨_, h⟩ | ⟨_, h⟩⟩
  · rw [h]
  · rw [h]
    rwa [hb] at hencode
  · rw [h]
    rwa [hb] at hencode

end finish

end LumbreExt
