import LumbreExt.Module.Worker
import LumbreExt.Span.Account

/-!
# What one step of the module does

One specification for each operation of the module. The invariants of runs use these and never
unfold the operations again.

* `Process.enter_cases` — a hook passes the call through, or starts a span with the next id and the
  current parent, and descends.
* `Process.spanFinish_eq`, `Process.leave_traced` — with a ring and a buffer, a traced hook that is
  left finishes its span, and the context is unwound.
* `Process.phpRinit_cases` — RINIT does nothing, or fails in the lazy initialisation, or starts the
  root span.
* `Worker.Transition`, `Worker.transition_of_step` — the events that can happen, and the worker behind
  each.
-/

namespace LumbreExt

open Lib

/-! ## Starting a span -/

/-- The context inside the call that started the last span. -/
def LumbreContext.descend (ctx : LumbreContext) : LumbreContext :=
  { ctx with
    spanCounter := ctx.spanCounter + 1
    currentParentId := ctx.spanCounter
    rootSpanId := if ctx.currentParentId = 0 then ctx.spanCounter else ctx.rootSpanId }

/-- The identity of a span that starts. -/
def LumbreContext.nextIdentity (ctx : LumbreContext) (type : LumbreSpanTypeT) (clockNs : UInt64) :
    LumbreSpan.Identity :=
  ⟨type, ctx.traceId, ctx.spanCounter, ctx.currentParentId, clockNs⟩

lemma lumbreSpanStart_ctx (type : LumbreSpanTypeT) (ctx : LumbreContext) (clockNs : UInt64) :
    (lumbreSpanStart type ctx clockNs).2 = ctx.descend := by
  unfold lumbreSpanStart LumbreContext.descend
  by_cases h : ctx.currentParentId = 0 <;> simp [h]

/-- The payload setters leave the identity as it is. -/
lemma LumbreGlobals.payload_identity (g : LumbreGlobals) (type : LumbreSpanTypeT)
    (span : LumbreSpan) (call : HookCall) :
    (g.payload type span call).identity = span.identity := by
  cases call with
  | internal func args =>
      unfold payload executeInternalPayload
      dsimp only
      split_ifs <;> rfl
  | ex func lineno => cases func <;> rfl

namespace Process

variable (clock : Clock) (p : Process)

/-- The worker behind the start of a span. -/
def afterStart (span : LumbreSpan) : Process :=
  { p with g.ctx := p.g.ctx.descend, ticks := p.ticks + 1, started := p.started ++ [span] }

/-- **A hook passes the call through or starts a span.** -/
theorem enter_cases (call : HookCall) :
    (p.g.spanType call = none ∧ p.enter clock call = (.passThrough, p)) ∨
    ∃ type span, p.g.spanType call = some type ∧
      span.identity = p.g.ctx.nextIdentity type (clock p.ticks) ∧
      p.enter clock call = (.traced span, p.afterStart span) := by
  unfold enter
  cases htype : p.g.spanType call with
  | none => exact Or.inl ⟨rfl, rfl⟩
  | some type =>
      refine Or.inr ⟨type, _, rfl, ?_, Prod.ext rfl ?_⟩
      · rw [p.g.payload_identity]
        rfl
      · simp only [spanStart, afterStart, lumbreSpanStart_ctx]

/-! ## Finishing a span -/

/-- The ring and the msgpack buffer a finish works on are there. -/
def Ready : Prop := p.g.ringbuf.isSome ∧ p.g.mpBufPtr.isSome

/-- What a finish leaves behind, as far as the module depends on it. -/
structure Finished (span : LumbreSpan) (minDurationNs : UInt64) (r : FinishResult) : Prop where
  ctx : r.ctx = p.g.ctx.unwind span
  identity : r.span.identity = span.identity
  duration : r.span.durationNs = clock p.ticks - span.startNs
  capacity : r.mpBuf.capacity = p.g.mpBuf.capacity
  filtered : r.rc = 1 ↔ span.Filtered minDurationNs (clock p.ticks)
  /-- It is the result of a call on the worker's ring. -/
  call : ∃ (rb : LumbreRingbuf) (c : FinishCall), p.g.ringbuf = some rb ∧ r = c.result rb

variable {p}

/-- **With a ring and a buffer, a finish takes place.** -/
theorem spanFinish_eq (h : p.Ready) (span : LumbreSpan) (minDurationNs readPos : UInt64) :
    ∃ r, p.Finished clock span minDurationNs r ∧
      p.spanFinish clock span minDurationNs readPos = some (r, p.afterFinish r) := by
  obtain ⟨hring, hbuf⟩ := h
  obtain ⟨rb, hrb⟩ := Option.isSome_iff_exists.mp hring
  obtain ⟨a, ha⟩ := Option.isSome_iff_exists.mp hbuf
  refine ⟨lumbreSpanFinish span (rb.withReadPos readPos) p.g.mpBuf p.g.ctx minDurationNs
    p.g.maxQueryLen.toUInt64.toUInt32 (clock p.ticks), ?_, ?_⟩
  · exact {
      ctx := lumbreSpanFinish_ctx _ _ _ _ _ _ _
      identity := (lumbreSpanFinish_span _ _ _ _ _ _ _).1
      duration := (lumbreSpanFinish_span _ _ _ _ _ _ _).2
      capacity := lumbreSpanFinish_capacity _ _ _ _ _ _ _
      filtered := lumbreSpanFinish_rc_eq_one_iff _ _ _ _ _ _ _
      call := ⟨rb, ⟨span, p.g.mpBuf, p.g.ctx, minDurationNs,
        p.g.maxQueryLen.toUInt64.toUInt32, clock p.ticks, readPos⟩, hrb, rfl⟩ }
  · rw [spanFinish, hrb, ha]

/-- A traced hook that is left finishes its span with the minimum duration of that moment. -/
lemma leave_traced (h : p.Ready) (span : LumbreSpan) (readPos : UInt64) :
    ∃ r, p.Finished clock span p.g.minDurationNs.toUInt64 r ∧
      p.leave clock (.traced span) readPos = some (p.afterFinish r) := by
  obtain ⟨r, hr, hfinish⟩ := spanFinish_eq clock h span p.g.minDurationNs.toUInt64 readPos
  refine ⟨r, hr, ?_⟩
  rw [leave, hfinish]
  rfl

/-! ## RINIT and RSHUTDOWN -/

/-- What the lazy initialisation does not touch. -/
structure SameRequest (p p' : Process) : Prop where
  ctx : p'.g.ctx = p.g.ctx
  whitelist : p'.g.whitelist = p.g.whitelist
  started : p'.started = p.started
  finished : p'.finished = p.finished

lemma sameRequest_openRingbuf (p : Process) (env : RequestEnv) :
    SameRequest p (p.openRingbuf env) := by
  unfold openRingbuf
  dsimp only
  split_ifs <;> exact ⟨rfl, rfl, rfl, rfl⟩

lemma sameRequest_lazyInit (p : Process) (env : RequestEnv) : SameRequest p (p.lazyInit env) := by
  have halloc : ∀ p q : Process, p.allocStorage env = some q → SameRequest p q := by
    intro p q hq
    unfold allocStorage at hq
    split at hq <;> cases hq <;> exact ⟨rfl, rfl, rfl, rfl⟩
  unfold lazyInit
  dsimp only
  split
  · exact ⟨rfl, rfl, rfl, rfl⟩
  · rename_i q hq
    have hopen := sameRequest_openRingbuf { q with
      g.mpBufPtr := q.g.mpStorage
      g.mpBuf.capacity := lumbreMsgpackBufSize
      g.mpBuf.pos := 0 } env
    have hsame := halloc _ q hq
    exact ⟨hopen.ctx.trans hsame.ctx, hopen.whitelist.trans hsame.whitelist,
      hopen.started.trans hsame.started, hopen.finished.trans hsame.finished⟩

/-- **RINIT does nothing, or ends in the lazy initialisation, or starts the request.** -/
theorem phpRinit_cases (p : Process) (env : RequestEnv) :
    ∃ q, (q = p ∨ (p.g.ringbufInitialized = 0 ∧ q = p.lazyInit env)) ∧ SameRequest p q ∧
      (p.phpRinit clock env = q ∨
        (q.g.ringbufInitialized ≠ 0 ∧
          p.phpRinit clock env = (q.initContext env).startRoot clock env)) := by
  unfold phpRinit
  by_cases henabled : p.g.enabled = 0
  · exact ⟨p, Or.inl rfl, ⟨rfl, rfl, rfl, rfl⟩, Or.inl (if_pos henabled)⟩
  rw [if_neg henabled]
  by_cases hopen : p.g.ringbufInitialized = 0
  · refine ⟨p.lazyInit env, Or.inr ⟨hopen, rfl⟩, sameRequest_lazyInit p env, ?_⟩
    rw [if_pos hopen]
    by_cases hfailed : (p.lazyInit env).g.ringbufInitialized = 0
    · exact Or.inl (if_pos hfailed)
    · exact Or.inr ⟨hfailed, if_neg hfailed⟩
  · refine ⟨p, Or.inl rfl, ⟨rfl, rfl, rfl, rfl⟩, Or.inr ⟨hopen, ?_⟩⟩
    rw [if_neg hopen]
    exact if_neg hopen

end Process

/-- The trace id of a request: the one in the header, else fresh random bytes, else zeros. -/
def RequestEnv.traceId (env : RequestEnv) : TraceId :=
  env.propagated.getD (env.randomBytes.getD zeroTraceId)

namespace Process

/-- The context of the request, on top of a context without a trace id. -/
lemma initContext_ctx {p : Process} (hzero : p.g.ctx.traceId = zeroTraceId) (env : RequestEnv) :
    ∃ fullTrace, (p.initContext env).g.ctx = ⟨env.traceId, 0, 0, 1, 1, fullTrace⟩ := by
  have htrace : (lumbreContextInit p.g.ctx env.propagated
      (some (lumbrePhpRandomBytes env))).traceId = env.traceId := by
    unfold RequestEnv.traceId lumbreContextInit lumbrePhpRandomBytes
    cases env.propagated with
    | some id => rfl
    | none =>
        cases env.randomBytes with
        | some bytes => rfl
        | none => exact hzero
  unfold initContext
  dsimp only
  split_ifs
  · exact ⟨1, LumbreContext.ext htrace rfl rfl rfl rfl rfl⟩
  · exact ⟨0, LumbreContext.ext htrace rfl rfl rfl rfl rfl⟩

/-- The worker behind the start of the root span. -/
def afterRoot (p : Process) (root : LumbreSpan) : Process :=
  { p.afterStart root with
    g.rootSpan := root
    g.ctx.rootSpanId := root.spanId }

/-- The root span is the first of the context. -/
lemma startRoot_eq (clock : Clock) (p : Process) (env : RequestEnv) :
    ∃ root : LumbreSpan, root.identity = p.g.ctx.nextIdentity lumbreSpanHttpIn (clock p.ticks) ∧
      p.startRoot clock env = p.afterRoot root := by
  refine ⟨(p.startRoot clock env).g.rootSpan, rfl, ?_⟩
  unfold startRoot afterRoot afterStart spanStart
  simp only [lumbreSpanStart_ctx]

/-- The worker behind RSHUTDOWN. -/
def afterShutdown (p : Process) (r : FinishResult) : Process :=
  { p.afterFinish r with g.rootSpan := r.span, g.ctx := lumbreContextReset r.ctx }

/-- RSHUTDOWN finishes the root span, whatever its duration, and resets the context. -/
lemma phpRshutdown_active {p : Process} (clock : Clock) (h : p.Ready) (hactive : p.g.ctx.active ≠ 0)
    (readPos : UInt64) :
    ∃ r, p.Finished clock p.g.rootSpan 0 r ∧
      p.phpRshutdown clock readPos = some (p.afterShutdown r) := by
  obtain ⟨r, hr, hfinish⟩ := spanFinish_eq clock h p.g.rootSpan 0 readPos
  refine ⟨r, hr, ?_⟩
  rw [phpRshutdown, if_neg hactive, hfinish]
  rfl

lemma phpRshutdown_inactive {p : Process} (clock : Clock) (hactive : p.g.ctx.active = 0)
    (readPos : UInt64) : p.phpRshutdown clock readPos = some p := if_pos hactive

end Process

/-! ## Events -/

namespace Worker

/-- The events that can happen to a worker, with the worker behind each. -/
inductive Transition (clock : Clock) (w : Worker) : Event → Worker → Prop
  | rinit (env : RequestEnv) (hidle : w.running = false) :
      Transition clock w (.rinit env) (w.beginRequest env (w.proc.cleared.phpRinit clock env))
  | enter (call : HookCall) (hrunning : w.running = true) :
      Transition clock w (.enter call)
        (w.push (w.proc.enter clock call).1 (w.proc.enter clock call).2)
  | leave (readPos : UInt64) {frame : HookFrame} {rest : List HookFrame}
      (hstack : w.stack = frame :: rest) :
      Transition clock w (.leave readPos)
        ((w.withStack rest).settle (w.proc.leave clock frame readPos))
  | bailout (hrunning : w.running = true) : Transition clock w .bailout w.abandon
  | iniSet (change : IniChange) : Transition clock w (.iniSet change) (w.iniSet change)
  | rshutdown (readPos : UInt64) (hrunning : w.running = true) :
      Transition clock w (.rshutdown readPos)
        (w.endRequest.settle (w.proc.phpRshutdown clock readPos))

/-- **The inversion of `step`.** -/
theorem transition_of_step {clock : Clock} {w w' : Worker} {e : Event}
    (h : w.step clock e = some w') : Transition clock w e w' := by
  unfold Worker.step at h
  cases e with
  | rinit env =>
      dsimp only at h
      split_ifs at h with hrunning
      cases h
      exact .rinit env (Bool.eq_false_iff.mpr hrunning)
  | enter call =>
      dsimp only at h
      split_ifs at h with hidle
      cases h
      exact .enter call (by simpa using hidle)
  | leave readPos =>
      dsimp only at h
      split at h
      · cases h
      · rename_i frame rest hstack
        cases h
        exact .leave readPos hstack
  | bailout =>
      dsimp only at h
      split_ifs at h with hidle
      cases h
      exact .bailout (by simpa using hidle)
  | iniSet change =>
      cases h
      exact .iniSet change
  | rshutdown readPos =>
      dsimp only at h
      split_ifs at h with hidle
      cases h
      exact .rshutdown readPos (by simpa using hidle)

end Worker

end LumbreExt
