import LumbreExt.Module.Steps

/-!
# The lifecycle of the module

What holds in every state of a worker, over any number of requests, whatever fails in them.

* `Process.Closed`, `Process.Opened`, `Process.Resources` — before and after the lazy initialisation
  has succeeded: the ring, its one mapping and descriptor, the msgpack storage.
* `Process.Begun`, `Process.Resources.phpRinit` — RINIT between two requests.
* `Worker.Safe` — the invariant: no access through `NULL`; an active context has an open ring and
  belongs to the running request; otherwise the trace id is zero and no traced hook is open; all
  spans of the last request carry its trace id.
* `Worker.Safe.step` — every event preserves it, by cases on the event.
* `Worker.lifecycle_safe` — the result over all runs.
* `Worker.phpMshutdown_released` — MSHUTDOWN gives everything back.
-/

namespace LumbreExt

open Lib

namespace Process

/-! ## The ring and the msgpack storage -/

/-- The ring has not been opened yet. -/
structure Closed (p : Process) : Prop where
  flag : p.g.ringbufInitialized = 0
  ring : p.g.ringbuf = none
  mappings : p.os.mappings = 0
  openFds : p.os.openFds = 0

/-- The ring is open, and the msgpack buffer points to the storage. -/
structure Opened (p : Process) : Prop where
  flag : p.g.ringbufInitialized = 1
  ring : p.g.ringbuf.isSome
  mappings : p.os.mappings = 1
  openFds : p.os.openFds = 1
  buffer : ∃ a, p.g.mpStorage = some a ∧ p.g.mpBufPtr = some a
  capacity : p.g.mpBuf.capacity = lumbreMsgpackBufSize

/-- The two phases of the ring, and one allocation at most. -/
structure Resources (p : Process) : Prop where
  storage : p.allocations = if p.g.mpStorage.isSome then 1 else 0
  ring : p.Closed ∨ p.Opened

/-- The spans of the request: those it has started, and those it has finished as they were left. -/
def spans (p : Process) : List LumbreSpan := p.started ++ p.finished.map fun r => r.span

variable {p : Process}

lemma Opened.ready (h : p.Opened) : p.Ready := by
  obtain ⟨a, _, hptr⟩ := h.buffer
  exact ⟨h.ring, Option.isSome_iff_exists.mpr ⟨a, hptr⟩⟩

/-- The flag tells the two phases apart. -/
lemma Resources.opened (h : p.Resources) (hflag : p.g.ringbufInitialized ≠ 0) : p.Opened :=
  h.ring.resolve_left fun hclosed => hflag hclosed.flag

lemma Opened.afterStart (h : p.Opened) (span : LumbreSpan) : (p.afterStart span).Opened :=
  ⟨h.flag, h.ring, h.mappings, h.openFds, h.buffer, h.capacity⟩

lemma Opened.afterRoot (h : p.Opened) (root : LumbreSpan) : (p.afterRoot root).Opened :=
  ⟨h.flag, h.ring, h.mappings, h.openFds, h.buffer, h.capacity⟩

lemma Opened.initContext (h : p.Opened) (env : RequestEnv) : (p.initContext env).Opened :=
  ⟨h.flag, h.ring, h.mappings, h.openFds, h.buffer, h.capacity⟩

lemma Opened.afterFinish (h : p.Opened) {r : FinishResult}
    (hcapacity : r.mpBuf.capacity = p.g.mpBuf.capacity) : (p.afterFinish r).Opened :=
  ⟨h.flag, rfl, h.mappings, h.openFds, h.buffer, hcapacity.trans h.capacity⟩

lemma Opened.iniSet (h : p.Opened) (c : IniChange) : (p.iniSet c).Opened := by
  cases c <;> exact ⟨h.flag, h.ring, h.mappings, h.openFds, h.buffer, h.capacity⟩

lemma Resources.iniSet (h : p.Resources) (c : IniChange) : (p.iniSet c).Resources := by
  cases c <;> exact ⟨h.storage,
    h.ring.imp (fun hc => ⟨hc.flag, hc.ring, hc.mappings, hc.openFds⟩)
      fun ho => ⟨ho.flag, ho.ring, ho.mappings, ho.openFds, ho.buffer, ho.capacity⟩⟩

lemma Resources.cleared (h : p.Resources) : p.cleared.Resources :=
  ⟨h.storage, h.ring.imp (fun hc => ⟨hc.flag, hc.ring, hc.mappings, hc.openFds⟩)
    fun ho => ⟨ho.flag, ho.ring, ho.mappings, ho.openFds, ho.buffer, ho.capacity⟩⟩

/-- `lumbre_ringbuf_init` maps one ring, or gives back all it has taken. -/
lemma lumbreRingbufInit_cases (ans : InitAnswers) (os : OsResources) (shmDir : List UInt8)
    (pid : UInt32) (workerId : UInt64) (capacity : UInt32) :
    ∃ os', (lumbreRingbufInit ans os shmDir pid workerId capacity = (os', none) ∧
        os'.mappings = os.mappings ∧ os'.openFds = os.openFds) ∨
      ∃ rb, lumbreRingbufInit ans os shmDir pid workerId capacity = (os', some rb) ∧
        os'.mappings = os.mappings + 1 ∧ os'.openFds = os.openFds + 1 := by
  unfold lumbreRingbufInit
  dsimp only
  by_cases hpath : ringPathSize ≤ (ringPath shmDir pid workerId).length
  · exact ⟨os, Or.inl ⟨if_pos hpath, rfl, rfl⟩⟩
  rw [if_neg hpath]
  cases ans.fd with
  | none => exact ⟨os, Or.inl ⟨rfl, rfl, rfl⟩⟩
  | some fd =>
      by_cases hfailed : (!ans.ftruncateOk || !ans.mmapOk) = true
      · exact ⟨_, Or.inl ⟨if_pos hfailed, rfl, rfl⟩⟩
      · exact ⟨_, Or.inr ⟨_, if_neg hfailed, rfl, rfl⟩⟩

/-- The ring is opened and the flag set, or the module is switched off. -/
lemma openRingbuf_cases (p : Process) (env : RequestEnv) :
    ∃ os', (p.openRingbuf env = { p with os := os', g.enabled := 0 } ∧
        os'.mappings = p.os.mappings ∧ os'.openFds = p.os.openFds) ∨
      ∃ rb, p.openRingbuf env =
          { p with os := os', g.ringbuf := some rb, g.ringbufInitialized := 1 } ∧
        os'.mappings = p.os.mappings + 1 ∧ os'.openFds = p.os.openFds + 1 := by
  obtain ⟨os', ⟨hinit, hos⟩ | ⟨rb, hinit, hos⟩⟩ := lumbreRingbufInit_cases env.initAnswers p.os
    p.g.shmDir env.pid env.workerId p.g.bufferSize.toUInt64.toUInt32
  · refine ⟨os', Or.inl ⟨?_, hos⟩⟩
    unfold Process.openRingbuf
    rw [hinit]
    rfl
  · refine ⟨os', Or.inr ⟨rb, ?_, hos⟩⟩
    unfold Process.openRingbuf
    rw [hinit]
    rfl

/-- With the storage allocated, opening the ring keeps the resources in order. -/
lemma Closed.openRingbuf (h : p.Closed) {a : ℕ} (hstorage : p.g.mpStorage = some a)
    (hptr : p.g.mpBufPtr = some a) (hcapacity : p.g.mpBuf.capacity = lumbreMsgpackBufSize)
    (halloc : p.allocations = 1) (env : RequestEnv) : (p.openRingbuf env).Resources := by
  have hone : p.allocations = if p.g.mpStorage.isSome then 1 else 0 := by
    rw [hstorage, halloc]
    rfl
  obtain ⟨os', ⟨hopen, hmap, hfd⟩ | ⟨rb, hopen, hmap, hfd⟩⟩ := p.openRingbuf_cases env
  · rw [hopen]
    exact ⟨hone, Or.inl ⟨h.flag, h.ring, hmap.trans h.mappings, hfd.trans h.openFds⟩⟩
  · rw [h.mappings] at hmap
    rw [h.openFds] at hfd
    rw [hopen]
    exact ⟨hone, Or.inr ⟨rfl, rfl, hmap, hfd, ⟨a, hstorage, hptr⟩, hcapacity⟩⟩

/-- The storage is there behind the first block of the lazy initialisation, allocated once, unless
`pemalloc` fails. -/
lemma Closed.allocStorage (h : p.Closed)
    (hstorage : p.allocations = if p.g.mpStorage.isSome then 1 else 0) (env : RequestEnv) :
    p.allocStorage env = none ∨ ∃ q a, p.allocStorage env = some q ∧ q.Closed ∧
      q.g.mpStorage = some a ∧ q.allocations = 1 := by
  unfold Process.allocStorage
  cases hmp : p.g.mpStorage with
  | some a =>
      rw [hmp] at hstorage
      exact Or.inr ⟨p, a, rfl, h, hmp, hstorage⟩
  | none =>
      rw [hmp] at hstorage
      cases env.pemalloc with
      | none => exact Or.inl rfl
      | some m =>
          exact Or.inr ⟨_, p.allocations, rfl, ⟨h.flag, h.ring, h.mappings, h.openFds⟩, rfl,
            congrArg (· + 1) hstorage⟩

/-- **The lazy initialisation keeps the resources in order**, wherever it fails. -/
lemma Resources.lazyInit (h : p.Resources) (hflag : p.g.ringbufInitialized = 0)
    (env : RequestEnv) : (p.lazyInit env).Resources := by
  have hclosed : p.Closed := h.ring.resolve_right fun ho => by
    have hone := ho.flag
    rw [hflag] at hone
    exact absurd hone (by decide)
  have hclosed' : Closed { p with g.workerId := env.workerId } :=
    ⟨hclosed.flag, hclosed.ring, hclosed.mappings, hclosed.openFds⟩
  unfold Process.lazyInit
  dsimp only
  rcases hclosed'.allocStorage h.storage env with hnone | ⟨q, a, hq, hqclosed, hmp, halloc⟩
  · rw [hnone]
    exact ⟨h.storage, Or.inl ⟨hclosed.flag, hclosed.ring, hclosed.mappings, hclosed.openFds⟩⟩
  · rw [hq]
    have hready : Closed { q with
        g.mpBufPtr := q.g.mpStorage
        g.mpBuf.capacity := lumbreMsgpackBufSize
        g.mpBuf.pos := 0 } :=
      ⟨hqclosed.flag, hqclosed.ring, hqclosed.mappings, hqclosed.openFds⟩
    exact hready.openRingbuf hmp hmp rfl halloc env

/-- A request that is traced starts: `q` is the worker in front of its root span. -/
structure Begun (clock : Clock) (env : RequestEnv) (p q : Process) (root : LumbreSpan) : Prop where
  resources : q.Resources
  opened : q.Opened
  ctx : ∃ fullTrace, q.g.ctx = ⟨env.traceId, 0, 0, 1, 1, fullTrace⟩
  whitelist : q.g.whitelist = p.g.whitelist
  started : q.started = p.started
  finished : q.finished = p.finished
  root : root.identity = q.g.ctx.nextIdentity lumbreSpanHttpIn (clock q.ticks)

/-- **RINIT, between requests**: the worker is as before but for the lazy initialisation, or the
root span has been started. -/
theorem Resources.phpRinit (clock : Clock) (h : p.Resources)
    (hzero : p.g.ctx.traceId = zeroTraceId) (env : RequestEnv) :
    (∃ q, p.phpRinit clock env = q ∧ q.Resources ∧ SameRequest p q) ∨
      ∃ q root, p.phpRinit clock env = q.afterRoot root ∧ Begun clock env p q root := by
  obtain ⟨q, horigin, hsame, hrinit⟩ := p.phpRinit_cases clock env
  have hresources : q.Resources := by
    rcases horigin with rfl | ⟨hclosed, rfl⟩
    · exact h
    · exact h.lazyInit hclosed env
  rcases hrinit with hrinit | ⟨hflag, hrinit⟩
  · exact Or.inl ⟨q, hrinit, hresources, hsame⟩
  · have hqzero : q.g.ctx.traceId = zeroTraceId :=
      (congrArg LumbreContext.traceId hsame.ctx).trans hzero
    have hopened := (hresources.opened hflag).initContext env
    obtain ⟨root, hroot, hstart⟩ := (q.initContext env).startRoot_eq clock env
    exact Or.inr ⟨q.initContext env, root, hrinit.trans hstart, {
      resources := ⟨hresources.storage, Or.inr hopened⟩
      opened := hopened
      ctx := initContext_ctx hqzero env
      whitelist := hsame.whitelist
      started := hsame.started
      finished := hsame.finished
      root := hroot }⟩

lemma Begun.rootTraceId {clock : Clock} {env : RequestEnv} {q : Process} {root : LumbreSpan}
    (h : Begun clock env p q root) : root.traceId = env.traceId := by
  obtain ⟨fullTrace, hctx⟩ := h.ctx
  have htrace := congrArg LumbreSpan.Identity.traceId h.root
  rw [hctx] at htrace
  exact htrace

/-- The context behind the start of the root span, which has the id `1`. -/
lemma Begun.afterRoot_ctx {clock : Clock} {env : RequestEnv} {q : Process} {root : LumbreSpan}
    (h : Begun clock env p q root) :
    root.spanId = 1 ∧ root.parentId = 0 ∧
      ∃ fullTrace, (q.afterRoot root).g.ctx = ⟨env.traceId, 1, 1, 2, 1, fullTrace⟩ := by
  obtain ⟨fullTrace, hctx⟩ := h.ctx
  have hroot := h.root
  rw [hctx] at hroot
  have hid : root.spanId = 1 := congrArg LumbreSpan.Identity.spanId hroot
  refine ⟨hid, congrArg LumbreSpan.Identity.parentId hroot, fullTrace, ?_⟩
  unfold Process.afterRoot Process.afterStart
  rw [hctx, hid]
  rfl

end Process

/-! ## The invariant -/

/-- Without an active context every call is passed through. -/
lemma LumbreGlobals.spanType_of_inactive {g : LumbreGlobals} (h : g.ctx.active = 0)
    (call : HookCall) : g.spanType call = none := by
  cases call with
  | internal func args => exact if_pos (Or.inr h)
  | ex func lineno => exact if_pos (Or.inr h)

/-- A call that is traced is entered in an active context. -/
lemma LumbreGlobals.active_of_spanType {g : LumbreGlobals} {call : HookCall}
    {type : LumbreSpanTypeT} (h : g.spanType call = some type) : g.ctx.active ≠ 0 := by
  intro hzero
  rw [spanType_of_inactive hzero] at h
  exact Option.some_ne_none _ h.symm

namespace Process

lemma mem_spans_afterStart {p : Process} {span s : LumbreSpan} :
    s ∈ (p.afterStart span).spans ↔ s ∈ p.spans ∨ s = span := by
  simp only [spans, afterStart, List.mem_append, List.mem_singleton]
  tauto

lemma mem_spans_afterFinish {p : Process} {r : FinishResult} {s : LumbreSpan} :
    s ∈ (p.afterFinish r).spans ↔ s ∈ p.spans ∨ s = r.span := by
  simp only [spans, afterFinish, List.map_append, List.map_cons, List.map_nil, List.mem_append,
    List.mem_singleton]
  tauto

end Process

namespace Worker

variable {w : Worker}

/-- A call that is passed through is not among the open spans. -/
lemma openSpans_passThrough {rest : List HookFrame} (hstack : w.stack = .passThrough :: rest) :
    (w.withStack rest).openSpans = w.openSpans := by
  unfold openSpans
  rw [hstack]
  rfl

/-- The span of the innermost hook is the first of the open spans. -/
lemma openSpans_traced {span : LumbreSpan} {rest : List HookFrame}
    (hstack : w.stack = .traced span :: rest) :
    w.openSpans = span :: (w.withStack rest).openSpans := by
  unfold openSpans
  rw [hstack]
  rfl

/-- The trace id of a request, wherever the worker keeps it while the request is traced. -/
structure Carries (p : Process) (openSpans : List LumbreSpan) (env : RequestEnv) : Prop where
  ctx : p.g.ctx.traceId = env.traceId
  root : p.g.rootSpan.traceId = env.traceId
  openSpans : ∀ s ∈ openSpans, s.traceId = env.traceId

/-- **The lifecycle invariant.** -/
structure Safe (w : Worker) : Prop where
  faulted : w.faulted = false
  resources : w.proc.Resources
  idle : w.proc.g.ctx.active = 0 → w.proc.g.ctx.traceId = zeroTraceId ∧ w.openSpans = []
  active : w.proc.g.ctx.active ≠ 0 → w.proc.Opened ∧ w.running = true ∧
    ∃ env, w.request = some env ∧ Carries w.proc w.openSpans env
  spans : ∀ env, w.request = some env → ∀ s ∈ w.proc.spans, s.traceId = env.traceId

lemma safe_start {table : List LumbreWlStaticEntry} (h : Start table w) : w.Safe := by
  obtain ⟨settings, g, hg, rfl⟩ := h
  obtain ⟨whitelist, _, rfl⟩ := Option.map_eq_some_iff.mp hg
  exact {
    faulted := rfl
    resources := ⟨rfl, Or.inl ⟨rfl, rfl, rfl, rfl⟩⟩
    idle := fun _ => ⟨rfl, rfl⟩
    active := fun h => absurd rfl h
    spans := fun _ h => absurd h (Option.some_ne_none _).symm }

/-- Outside a request the context is not active. -/
lemma Safe.inactive (h : w.Safe) (hidle : w.running = false) : w.proc.g.ctx.active = 0 := by
  by_contra hactive
  have hrunning := (h.active hactive).2.1
  rw [hidle] at hrunning
  exact Bool.false_ne_true hrunning

/-- Spans are open in an active context only. -/
lemma Safe.active_of_openSpans (h : w.Safe) {span : LumbreSpan} {rest : List LumbreSpan}
    (hopen : w.openSpans = span :: rest) : w.proc.g.ctx.active ≠ 0 := by
  intro hzero
  rw [(h.idle hzero).2] at hopen
  exact absurd hopen (List.cons_ne_nil _ _).symm

/-! ## Every event preserves it -/

/-- RINIT, in a worker whose records have been cleared for the new request. -/
lemma Safe.rinit (clock : Clock) (h : w.Safe) (hidle : w.running = false) (env : RequestEnv) :
    (w.beginRequest env (w.proc.cleared.phpRinit clock env)).Safe := by
  have hinactive := h.inactive hidle
  have hzero := (h.idle hinactive).1
  rcases h.resources.cleared.phpRinit clock hzero env with
    ⟨q, hrinit, hresources, hsame⟩ | ⟨q, root, hrinit, hbegun⟩
  · -- nothing is traced in this request
    have hactive : q.g.ctx.active = 0 := (congrArg LumbreContext.active hsame.ctx).trans hinactive
    have hspans : q.spans = [] := by rw [Process.spans, hsame.started, hsame.finished]; rfl
    rw [hrinit]
    exact {
      faulted := h.faulted
      resources := hresources
      idle := fun _ => ⟨(congrArg LumbreContext.traceId hsame.ctx).trans hzero, rfl⟩
      active := fun hne => absurd hactive hne
      spans := by
        intro _ _ s hs
        have hmem : s ∈ q.spans := hs
        rw [hspans] at hmem
        exact absurd hmem List.not_mem_nil }
  · have hopened : (q.afterRoot root).Opened := hbegun.opened.afterRoot root
    have hspans : (q.afterRoot root).spans = [root] := by
      rw [Process.spans, Process.afterRoot, Process.afterStart]
      dsimp only
      rw [hbegun.started, hbegun.finished]
      rfl
    obtain ⟨_, _, fullTrace, hctx⟩ := hbegun.afterRoot_ctx
    have hactive : (q.afterRoot root).g.ctx.active = 1 := by rw [hctx]
    have htrace : (q.afterRoot root).g.ctx.traceId = env.traceId := by rw [hctx]
    rw [hrinit]
    exact {
      faulted := h.faulted
      resources := ⟨hbegun.resources.storage, Or.inr hopened⟩
      idle := fun hne => absurd (hactive.symm.trans hne) (by decide)
      active := fun _ => ⟨hopened, rfl, env, rfl, htrace, hbegun.rootTraceId, fun _ hs =>
        absurd hs List.not_mem_nil⟩
      spans := by
        intro env' henv' s hs
        cases henv'
        have hmem : s ∈ (q.afterRoot root).spans := hs
        rw [hspans, List.mem_singleton] at hmem
        rw [hmem, hbegun.rootTraceId] }

/-- A hook is entered. -/
lemma Safe.enter (clock : Clock) (h : w.Safe) (call : HookCall) :
    (w.push (w.proc.enter clock call).1 (w.proc.enter clock call).2).Safe := by
  rcases w.proc.enter_cases clock call with ⟨_, hpass⟩ | ⟨type, span, htype, hspan, htraced⟩
  · rw [hpass]
    exact ⟨h.faulted, h.resources, h.idle, h.active, h.spans⟩
  · have hactive := LumbreGlobals.active_of_spanType htype
    obtain ⟨hopened, hrunning, env, henv, hcarries⟩ := h.active hactive
    have hid : span.traceId = env.traceId :=
      (congrArg LumbreSpan.Identity.traceId hspan).trans hcarries.ctx
    rw [htraced]
    exact {
      faulted := h.faulted
      resources := ⟨h.resources.storage, Or.inr (hopened.afterStart span)⟩
      idle := fun hzero => absurd hzero hactive
      active := fun _ => ⟨hopened.afterStart span, hrunning, env, henv, hcarries.ctx, hcarries.root,
        fun s hs => (List.mem_cons.mp hs).elim (fun heq => heq ▸ hid) (hcarries.openSpans s)⟩
      spans := by
        intro env' henv' s hs
        have heq : env' = env := Option.some_inj.mp (henv'.symm.trans henv)
        rcases Process.mem_spans_afterStart.mp hs with hold | rfl
        · exact h.spans env' henv' s hold
        · rw [heq, hid] }

/-- A hook is left: the ring it writes through is there. -/
lemma Safe.leave (clock : Clock) (h : w.Safe) {frame : HookFrame} {rest : List HookFrame}
    (hstack : w.stack = frame :: rest) (readPos : UInt64) :
    ((w.withStack rest).settle (w.proc.leave clock frame readPos)).Safe := by
  cases frame with
  | passThrough =>
      have hsame := openSpans_passThrough hstack
      refine ⟨h.faulted, h.resources, ?_, ?_, h.spans⟩
      · intro hzero
        exact ⟨(h.idle hzero).1, hsame.trans (h.idle hzero).2⟩
      · intro hne
        obtain ⟨hopened, hrunning, env, henv, hcarries⟩ := h.active hne
        exact ⟨hopened, hrunning, env, henv, hcarries.ctx, hcarries.root, fun s hs =>
          hcarries.openSpans s (hsame ▸ hs)⟩
  | traced span =>
      have hopen := openSpans_traced hstack
      have hactive := h.active_of_openSpans hopen
      obtain ⟨hopened, hrunning, env, henv, hcarries⟩ := h.active hactive
      obtain ⟨r, hr, hleave⟩ := Process.leave_traced clock hopened.ready span readPos
      have hid : r.span.traceId = env.traceId :=
        (congrArg LumbreSpan.Identity.traceId hr.identity).trans
          (hcarries.openSpans span (hopen ▸ List.mem_cons_self))
      have hctx : (w.proc.afterFinish r).g.ctx = w.proc.g.ctx.unwind span := hr.ctx
      rw [hleave]
      exact {
        faulted := h.faulted
        resources := ⟨h.resources.storage, Or.inr (hopened.afterFinish hr.capacity)⟩
        idle := by
          intro hzero
          rw [settle, hctx] at hzero
          exact absurd hzero hactive
        active := fun _ => ⟨hopened.afterFinish hr.capacity, hrunning, env, henv,
          (congrArg LumbreContext.traceId hctx).trans hcarries.ctx, hcarries.root,
          fun s hs => hcarries.openSpans s (hopen ▸ List.mem_cons_of_mem span hs)⟩
        spans := by
          intro env' henv' s hs
          have heq : env' = env := Option.some_inj.mp (henv'.symm.trans henv)
          rcases Process.mem_spans_afterFinish.mp hs with hold | rfl
          · exact h.spans env' henv' s hold
          · rw [heq, hid] }

/-- A fatal error abandons the open hooks. -/
lemma Safe.abandon (h : w.Safe) : w.abandon.Safe := by
  refine ⟨h.faulted, h.resources, fun hzero => ⟨(h.idle hzero).1, rfl⟩, ?_, h.spans⟩
  intro hne
  obtain ⟨hopened, hrunning, env, henv, hcarries⟩ := h.active hne
  exact ⟨hopened, hrunning, env, henv, hcarries.ctx, hcarries.root, fun _ hs =>
    absurd hs List.not_mem_nil⟩

/-- A script changes a setting. -/
lemma Safe.iniSet (h : w.Safe) (change : IniChange) : (w.iniSet change).Safe := by
  have hresources : (w.iniSet change).proc.Resources := h.resources.iniSet change
  have hopened : w.proc.Opened → (w.iniSet change).proc.Opened := fun ho => ho.iniSet change
  have hactive : w.proc.g.ctx.active ≠ 0 → (w.iniSet change).proc.Opened ∧ w.running = true ∧
      ∃ env, w.request = some env ∧ Carries w.proc w.openSpans env :=
    fun hne => (h.active hne).imp_left hopened
  -- no other field of the worker changes
  cases change with
  | enabled value =>
      refine ⟨h.faulted, hresources, h.idle, ?_, h.spans⟩
      intro hne
      obtain ⟨ho, hrunning, env, henv, hcarries⟩ := hactive hne
      exact ⟨ho, hrunning, env, henv, hcarries.ctx, hcarries.root, hcarries.openSpans⟩
  | minDurationNs value =>
      refine ⟨h.faulted, hresources, h.idle, ?_, h.spans⟩
      intro hne
      obtain ⟨ho, hrunning, env, henv, hcarries⟩ := hactive hne
      exact ⟨ho, hrunning, env, henv, hcarries.ctx, hcarries.root, hcarries.openSpans⟩

/-- RSHUTDOWN finishes the root span of an active context, and resets it. -/
lemma Safe.rshutdown (clock : Clock) (h : w.Safe) (readPos : UInt64) :
    (w.endRequest.settle (w.proc.phpRshutdown clock readPos)).Safe := by
  by_cases hactive : w.proc.g.ctx.active = 0
  · rw [Process.phpRshutdown_inactive clock hactive]
    exact ⟨h.faulted, h.resources, fun hzero => ⟨(h.idle hzero).1, rfl⟩,
      fun hne => absurd hactive hne, h.spans⟩
  · obtain ⟨hopened, _, env, henv, hcarries⟩ := h.active hactive
    obtain ⟨r, hr, hshutdown⟩ := Process.phpRshutdown_active clock hopened.ready hactive readPos
    have hid : r.span.traceId = env.traceId :=
      (congrArg LumbreSpan.Identity.traceId hr.identity).trans hcarries.root
    have hopened' := hopened.afterFinish hr.capacity
    rw [hshutdown]
    exact {
      faulted := h.faulted
      resources := ⟨h.resources.storage, Or.inr ⟨hopened'.flag, hopened'.ring, hopened'.mappings,
        hopened'.openFds, hopened'.buffer, hopened'.capacity⟩⟩
      idle := fun _ => ⟨rfl, rfl⟩
      active := fun hne => absurd rfl hne
      spans := by
        intro env' henv' s hs
        have heq : env' = env := Option.some_inj.mp (henv'.symm.trans henv)
        have hmem : s ∈ (w.proc.afterFinish r).spans := hs
        rcases Process.mem_spans_afterFinish.mp hmem with hold | rfl
        · exact h.spans env' henv' s hold
        · rw [heq, hid] }

/-- **Every event preserves the invariant.** -/
theorem Safe.step (clock : Clock) {w' : Worker} (h : w.Safe) {e : Event}
    (hstep : w.step clock e = some w') : w'.Safe := by
  cases transition_of_step hstep with
  | rinit env hidle => exact h.rinit clock hidle env
  | enter call _ => exact h.enter clock call
  | leave readPos hstack => exact h.leave clock hstack readPos
  | bailout _ => exact h.abandon
  | iniSet change => exact h.iniSet change
  | rshutdown readPos _ => exact h.rshutdown clock readPos

/-! ## Runs -/

/-- Every state of every run satisfies the invariant. -/
lemma safe_of_reachable {clock : Clock} {table : List LumbreWlStaticEntry}
    (h : (machine clock table).Reachable w) : w.Safe :=
  h.invariant (fun _ => safe_start) fun _ _ _ hs hstep => hs.step clock hstep

/-- **The module is safe over every run, and requests are isolated.** An active context has an open
ring and a msgpack buffer that points to the storage of 16384 bytes, and no hook or RSHUTDOWN goes
through an uninitialised one; between requests the context is not active and the trace id is zero,
and every span of a request carries the trace id of that request; one ring is mapped exactly when
the flag is set, and the storage is allocated once at most. -/
theorem lifecycle_safe {clock : Clock} {table : List LumbreWlStaticEntry}
    (h : (machine clock table).Reachable w) :
    (w.proc.g.ctx.active ≠ 0 → w.proc.g.ringbuf.isSome ∧
        (∃ a, w.proc.g.mpStorage = some a ∧ w.proc.g.mpBufPtr = some a) ∧
        w.proc.g.mpBuf.capacity = 16384) ∧
      w.faulted = false ∧
      (w.running = false → w.proc.g.ctx.active = 0 ∧ w.proc.g.ctx.traceId = zeroTraceId) ∧
      (∀ env, w.request = some env → ∀ s ∈ w.proc.spans, s.traceId = env.traceId) ∧
      w.proc.os.mappings ≤ 1 ∧ (w.proc.os.mappings = 1 ↔ w.proc.g.ringbufInitialized = 1) ∧
      w.proc.allocations ≤ 1 := by
  have hsafe := safe_of_reachable h
  refine ⟨?_, hsafe.faulted, ?_, hsafe.spans, ?_, ?_, ?_⟩
  · intro hactive
    have hopened := (hsafe.active hactive).1
    exact ⟨hopened.ring, hopened.buffer, hopened.capacity⟩
  · intro hidle
    have hinactive := hsafe.inactive hidle
    exact ⟨hinactive, (hsafe.idle hinactive).1⟩
  · rcases hsafe.resources.ring with hc | ho
    · exact hc.mappings.trans_le (Nat.zero_le 1)
    · exact ho.mappings.le
  · rcases hsafe.resources.ring with hc | ho
    · rw [hc.mappings, hc.flag]
      exact iff_of_false (by decide) (by decide)
    · exact iff_of_true ho.mappings ho.flag
  · rw [hsafe.resources.storage]
    split_ifs <;> decide

/-- A request in which everything succeeds except the generator. -/
def plainRequest : RequestEnv where
  workerId := 0
  pemalloc := some fun _ => 0
  pid := 1
  initAnswers := ⟨some 3, true, true⟩
  serverVars := none
  randomBytes := none
  sapiName := some (ascii "cli")
  pathTranslated := none
  requestUri := none
  requestMethod := none

/-- A call of a method. -/
def methodCall (className functionName : String) : HookCall :=
  .internal ⟨some (ascii functionName), some (ascii className), false, none⟩ []

/-- A call of an internal function. -/
def functionCall (functionName : String) : HookCall :=
  .internal ⟨some (ascii functionName), none, false, none⟩ []

/-- In the first request, inside a traced call. -/
theorem lifecycle_safe_first_request :
    ∃ w, (machine (fun _ => 0) lumbreWlStaticTable).run shipped
        [.rinit plainRequest, .enter (functionCall "fopen")] = some w ∧
      w.proc.g.ctx.active = 1 ∧ w.proc.g.ringbuf.isSome ∧ w.faulted = false ∧
      w.proc.os.mappings ≤ 1 := by
  have hrun : ((machine (fun _ => 0) lumbreWlStaticTable).run shipped
      [.rinit plainRequest, .enter (functionCall "fopen")]).map (fun w => w.proc.g.ctx.active) =
        some 1 := by decide +kernel
  obtain ⟨w, hrun, hactive⟩ := Option.map_eq_some_iff.mp hrun
  have hreach := (Machine.Reachable.start start_shipped).run hrun
  obtain ⟨hring, hfaulted, _, _, hmappings, _⟩ := lifecycle_safe hreach
  exact ⟨w, hrun, hactive, (hring (by rw [hactive]; decide)).1, hfaulted, hmappings⟩

/-! ## The end of the worker -/

/-- **MSHUTDOWN gives everything back**: the mapping, the descriptor and the storage. -/
theorem phpMshutdown_released {clock : Clock} {table : List LumbreWlStaticEntry}
    (h : (machine clock table).Reachable w) (sapiName : Option (List UInt8)) :
    (w.proc.phpMshutdown sapiName).os.mappings = 0 ∧
      (w.proc.phpMshutdown sapiName).os.openFds = 0 ∧
      (w.proc.phpMshutdown sapiName).g.mpStorage = none ∧
      (w.proc.phpMshutdown sapiName).g.ringbuf = none := by
  unfold Process.phpMshutdown
  rcases (safe_of_reachable h).resources.ring with hc | ho
  · rw [hc.flag]
    exact ⟨hc.mappings, hc.openFds, rfl, hc.ring⟩
  · obtain ⟨rb, hrb⟩ := Option.isSome_iff_exists.mp ho.ring
    have hmap := ho.mappings
    have hfd := ho.openFds
    rw [ho.flag, hrb, if_pos (show (1 : ℤ) ≠ 0 by decide)]
    unfold lumbreRingbufDestroy
    dsimp only
    split_ifs <;> simp [hmap, hfd]

end Worker

end LumbreExt
