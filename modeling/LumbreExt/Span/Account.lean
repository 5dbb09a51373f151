import LumbreExt.Ringbuf.Bounds
import LumbreExt.Span.Finish

/-!
# What becomes of every finished span

Runs of `lumbre_span_finish` on one ring: any spans, buffers, contexts and settings, and any position
the consumer has published by each call.

* `Outcome` — accepted by the ring, filtered, refused by the ring, or lost in the encoder, read off
  the return value and whether a payload was handed over (`FinishResult.outcome`).
* `lumbreSpanFinish_outcome` — one call: the ring's `dropped` counter grows by one exactly when the
  ring refuses.
* `finishes_accounted` — a whole run: the calls are the accepted, the filtered, the dropped and the
  overflowed ones.
* `encode_overflow_not_counted` — a call that returns `-1` without the counter moving.
-/

namespace LumbreExt

open Lib

/-! ## One call -/

/-- What became of a span. -/
inductive Outcome
  | accepted
  | filtered
  | refused
  | overflowed
  deriving DecidableEq

/-- The outcome, as the caller sees it: `-1` without a payload is an encode overflow. -/
def FinishResult.outcome (r : FinishResult) : Outcome :=
  if r.rc = 0 then .accepted
  else if r.rc = 1 then .filtered
  else if r.handed.isSome then .refused
  else .overflowed

/-- **The counter grows by one exactly when the ring refuses the payload.** -/
theorem lumbreSpanFinish_outcome (span : LumbreSpan) (rb : LumbreRingbuf)
    (mpBuf : LumbreMsgpackBuf) (ctx : LumbreContext) (minDurationNs clockNs : UInt64)
    (maxQueryLen : UInt32) :
    let r := lumbreSpanFinish span rb mpBuf ctx minDurationNs maxQueryLen clockNs
    (r.rc = -1 ↔ r.outcome = .refused ∨ r.outcome = .overflowed) ∧
      r.rb.header.dropped =
        if r.outcome = .refused then rb.header.dropped + 1 else rb.header.dropped := by
  rcases lumbreSpanFinish_cases span rb mpBuf ctx minDurationNs clockNs maxQueryLen with
    ⟨_, h⟩ | ⟨_, _, b, _, ⟨_, h⟩ | ⟨_, h⟩⟩
  · rw [h]
    exact ⟨by simp [FinishResult.outcome], rfl⟩
  · rw [h]
    exact ⟨by simp [FinishResult.outcome], rfl⟩
  · rw [h]
    rcases lumbreRingbufWrite_dropped rb b.buf b.pos.toUInt32 with ⟨hrc, hdropped⟩ | ⟨hrc, hdropped⟩
    · simp [FinishResult.outcome, hrc, hdropped]
    · simp [FinishResult.outcome, hrc, hdropped]

/-- The return value `1` means that the span was filtered, and nothing else. -/
lemma lumbreSpanFinish_rc_eq_one_iff (span : LumbreSpan) (rb : LumbreRingbuf)
    (mpBuf : LumbreMsgpackBuf) (ctx : LumbreContext) (minDurationNs clockNs : UInt64)
    (maxQueryLen : UInt32) :
    (lumbreSpanFinish span rb mpBuf ctx minDurationNs maxQueryLen clockNs).rc = 1 ↔
      span.Filtered minDurationNs clockNs := by
  rcases lumbreSpanFinish_cases span rb mpBuf ctx minDurationNs clockNs maxQueryLen with
    ⟨hfilter, h⟩ | ⟨hkeep, _, b, _, ⟨_, h⟩ | ⟨_, h⟩⟩
  · rw [h]
    exact iff_of_true rfl hfilter
  · rw [h]
    exact iff_of_false (show (-1 : ℤ) ≠ 1 by decide) hkeep
  · rw [h]
    rcases lumbreRingbufWrite_dropped rb b.buf b.pos.toUInt32 with ⟨hrc, _⟩ | ⟨hrc, _⟩
    · exact iff_of_false (show (lumbreRingbufWrite rb b.buf b.pos.toUInt32).1 ≠ 1 by simp [hrc])
        hkeep
    · exact iff_of_false (show (lumbreRingbufWrite rb b.buf b.pos.toUInt32).1 ≠ 1 by simp [hrc])
        hkeep

/-! ## Runs -/

/-- One call of a run: its arguments, and the value it finds in `header->read_pos`. -/
structure FinishCall where
  span : LumbreSpan
  mpBuf : LumbreMsgpackBuf
  ctx : LumbreContext
  minDurationNs : UInt64
  maxQueryLen : UInt32
  clockNs : UInt64
  readPos : UInt64

/-- What a call does to the ring it finds. -/
def FinishCall.result (c : FinishCall) (rb : LumbreRingbuf) : FinishResult :=
  lumbreSpanFinish c.span (rb.withReadPos c.readPos) c.mpBuf c.ctx c.minDurationNs c.maxQueryLen
    c.clockNs

/-- The results of a run of calls on one ring. -/
def runFinishes : LumbreRingbuf → List FinishCall → List FinishResult
  | _, [] => []
  | rb, c :: cs => c.result rb :: runFinishes (c.result rb).rb cs

/-- The ring after a run. -/
def ringAfter : LumbreRingbuf → List FinishCall → LumbreRingbuf
  | rb, [] => rb
  | rb, c :: cs => ringAfter (c.result rb).rb cs

/-- The number of calls of a run with an outcome. -/
def countOutcome (o : Outcome) (rb : LumbreRingbuf) (cs : List FinishCall) : ℕ :=
  (runFinishes rb cs).countP fun r => r.outcome = o

section runs

variable (rb : LumbreRingbuf)

/-- Every call has one of the four outcomes. -/
lemma length_eq_sum_countOutcome (cs : List FinishCall) :
    cs.length = countOutcome .accepted rb cs + countOutcome .filtered rb cs +
      countOutcome .refused rb cs + countOutcome .overflowed rb cs := by
  induction cs generalizing rb with
  | nil => rfl
  | cons c cs ih =>
      simp only [countOutcome] at ih
      simp only [countOutcome, runFinishes, List.countP_cons, List.length_cons]
      rw [ih (c.result rb).rb]
      cases (c.result rb).outcome <;> simp <;> omega

/-- The counter at the end of a run: one for each refusal, modulo `2 ^ 64`. -/
lemma dropped_ringAfter (cs : List FinishCall) :
    (ringAfter rb cs).header.dropped =
      rb.header.dropped + UInt64.ofNat (countOutcome .refused rb cs) := by
  induction cs generalizing rb with
  | nil => exact (UInt64.add_zero _).symm
  | cons c cs ih =>
      have hstep : (c.result rb).rb.header.dropped =
          if (c.result rb).outcome = .refused then rb.header.dropped + 1 else rb.header.dropped :=
        (lumbreSpanFinish_outcome _ _ _ _ _ _ _).2
      have hcount : countOutcome .refused rb (c :: cs) =
          countOutcome .refused (c.result rb).rb cs +
            if (c.result rb).outcome = .refused then 1 else 0 := by
        simp [countOutcome, runFinishes, List.countP_cons]
      rw [ringAfter, ih, hstep, hcount]
      split_ifs
      · rw [UInt64.ofNat_add, UInt64.add_assoc, UInt64.add_comm 1]
        rfl
      · rfl

end runs

/-- **Every lost span is accounted for.** In every run on an initialised ring, the calls are the
accepted messages, the filtered spans, the spans `header->dropped` counts and those whose encoding
overflowed, modulo `2 ^ 64`; and each call that returns `-1` has moved the counter by one, except
that an encode overflow leaves it as it is. -/
theorem finishes_accounted {capacity : UInt32} {rb : LumbreRingbuf}
    (hinit : Initialised capacity rb) (cs : List FinishCall) :
    cs.length % 2 ^ 64 =
        (countOutcome .accepted rb cs + countOutcome .filtered rb cs +
          (ringAfter rb cs).header.dropped.toNat + countOutcome .overflowed rb cs) % 2 ^ 64 ∧
      ∀ c ∈ cs, ∀ rb' : LumbreRingbuf, (c.result rb').rc = -1 →
        (c.result rb').rb.header.dropped =
          if (c.result rb').outcome = .overflowed then rb'.header.dropped
          else rb'.header.dropped + 1 := by
  constructor
  · have hzero : rb.header.dropped = 0 := by
      obtain ⟨_, _, _, _, rfl⟩ := hinit.eq_openRing
      rfl
    have hsum := length_eq_sum_countOutcome rb cs
    have hdropped : (ringAfter rb cs).header.dropped.toNat =
        countOutcome .refused rb cs % 2 ^ 64 := by
      rw [dropped_ringAfter, hzero, UInt64.zero_add, toNat_counter]
    omega
  · intro c _ rb' hrc
    obtain ⟨hlost, hdropped⟩ := lumbreSpanFinish_outcome c.span (rb'.withReadPos c.readPos) c.mpBuf
      c.ctx c.minDurationNs c.clockNs c.maxQueryLen
    rcases hlost.mp hrc with hrefused | hover
    · have hnot : (c.result rb').outcome ≠ .overflowed := by
        rw [FinishCall.result, hrefused]
        exact Outcome.noConfusion
      rw [if_neg hnot]
      exact hdropped.trans (if_pos hrefused)
    · have hnot : (c.result rb').outcome ≠ .refused := by
        rw [FinishCall.result, hover]
        exact Outcome.noConfusion
      rw [if_pos (show (c.result rb').outcome = .overflowed from hover)]
      exact hdropped.trans (if_neg hnot)

/-- A root span with a request URI of 20000 bytes, more than the buffer of 16384 bytes takes. -/
def longUriCall : FinishCall where
  span := { zeroSpan with
    type := lumbreSpanHttpIn, requestUri := some fun _ => 0x2F, requestUriLen := 20000 }
  mpBuf := ⟨fun _ => 0, 16384, 0, []⟩
  ctx := ⟨zeroTraceId, 1, 1, 2, 1, 0⟩
  minDurationNs := 0
  maxQueryLen := 2048
  clockNs := 5
  readPos := 0

/-- A file access of 5 nanoseconds, with a minimum duration of 10. -/
def shortCall : FinishCall :=
  { longUriCall with span := { zeroSpan with type := lumbreSpanFileIo }, minDurationNs := 10 }

/-- A file access of 5 nanoseconds, without a minimum duration. -/
def fileCall : FinishCall := { shortCall with minDurationNs := 0 }

/-- On a ring of 64 bytes, with the daemon asleep: a filtered span, an accepted one, one the ring has
no room for, and an encode overflow. -/
theorem finishes_accounted_short_and_long :
    (runFinishes (freshRing 64) [shortCall, fileCall, fileCall, longUriCall]).map
        FinishResult.outcome = [.filtered, .accepted, .refused, .overflowed] ∧
      (ringAfter (freshRing 64)
        [shortCall, fileCall, fileCall, longUriCall]).header.dropped = 1 ∧
      4 % 2 ^ 64 =
        (countOutcome .accepted (freshRing 64) [shortCall, fileCall, fileCall, longUriCall] +
          countOutcome .filtered (freshRing 64) [shortCall, fileCall, fileCall, longUriCall] +
          (ringAfter (freshRing 64)
            [shortCall, fileCall, fileCall, longUriCall]).header.dropped.toNat +
          countOutcome .overflowed (freshRing 64)
            [shortCall, fileCall, fileCall, longUriCall]) % 2 ^ 64 :=
  ⟨by decide +kernel, by decide +kernel,
    (finishes_accounted (initialised_freshRing 64) [shortCall, fileCall, fileCall, longUriCall]).1⟩

/-- An encode overflow returns `-1` and is counted nowhere. -/
theorem encode_overflow_not_counted :
    Initialised 8 ringOfEight ∧ (longUriCall.result ringOfEight).rc = -1 ∧
      (longUriCall.result ringOfEight).rb.header.dropped = ringOfEight.header.dropped ∧
      [longUriCall].length % 2 ^ 64 ≠
        (countOutcome .accepted ringOfEight [longUriCall] +
          countOutcome .filtered ringOfEight [longUriCall] +
          (ringAfter ringOfEight [longUriCall]).header.dropped.toNat) % 2 ^ 64 :=
  ⟨initialised_ringOfEight, by decide, by decide, by decide⟩

end LumbreExt
