import LumbreExt.Module.Reconstruct

/-!
# What the daemon can change

A worker reads one thing of what the daemon writes, `header->read_pos`. Two runs of the same events,
in which the daemon has published different positions, are compared.

* `LumbreRingbuf.blank`, `Worker.blank` — a ring without what calls to `lumbre_ringbuf_write` change
  of it, and a worker without that and without whether its ring has taken a payload.
* `Event.blank` — an event without the position of the daemon.
* `Worker.blank_step` — of an event, the worker depends on nothing else.
* `Worker.daemon_changes_nothing` — so the same calls are traced, with the same spans and payloads.
-/

namespace LumbreExt

open Lib

/-! ## Rings and finishes -/

/-- A ring without its data, its positions and its drop counter. -/
def LumbreRingbuf.blank (rb : LumbreRingbuf) : LumbreRingbuf :=
  { rb with
    header.writePos := 0
    header.readPos := 0
    header.dropped := 0
    data := fun _ => 0
    localWritePos := 0 }

/-- A finish without the ring, and without whether the ring has taken the payload. -/
def FinishResult.blank (r : FinishResult) : FinishResult :=
  { r with rb := r.rb.blank, rc := if r.handed.isSome then 0 else r.rc }

lemma LumbreRingbuf.blank_execAll (rb : LumbreRingbuf) (ops : List WriteOp) :
    (rb.execAll ops).blank = rb.blank := by
  induction ops generalizing rb with
  | nil => rfl
  | cons op ops ih =>
      have hexec : (rb.exec op).blank = rb.blank := by cases op <;> rfl
      exact (ih (rb.exec op)).trans hexec

/-- What a finish makes of the span, the buffer and the context does not depend on the ring. -/
lemma lumbreSpanFinish_blank {rb rb' : LumbreRingbuf} (h : rb.blank = rb'.blank) (span : LumbreSpan)
    (mpBuf : LumbreMsgpackBuf) (ctx : LumbreContext) (minDurationNs clockNs : UInt64)
    (maxQueryLen : UInt32) :
    (lumbreSpanFinish span rb mpBuf ctx minDurationNs maxQueryLen clockNs).blank =
      (lumbreSpanFinish span rb' mpBuf ctx minDurationNs maxQueryLen clockNs).blank := by
  have hwritten : ∀ (rb : LumbreRingbuf) (payload : Mem) (len : UInt32),
      (lumbreRingbufWrite rb payload len).2.blank = rb.blank := fun rb _ _ => rb.blank_execAll _
  rcases lumbreSpanFinish_cases span rb mpBuf ctx minDurationNs clockNs maxQueryLen with
    ⟨hfilter, h₁⟩ | ⟨hkeep, rc, b, hencode, hrest⟩
  · rcases lumbreSpanFinish_cases span rb' mpBuf ctx minDurationNs clockNs maxQueryLen with
      ⟨_, h₂⟩ | ⟨hkeep, _⟩
    · rw [h₁, h₂]
      simp only [FinishResult.blank, h]
    · exact absurd hfilter hkeep
  · rcases lumbreSpanFinish_cases span rb' mpBuf ctx minDurationNs clockNs maxQueryLen with
      ⟨hfilter, _⟩ | ⟨_, rc', b', hencode', hrest'⟩
    · exact absurd hfilter hkeep
    · obtain ⟨rfl, rfl⟩ := Prod.mk.inj (hencode.symm.trans hencode')
      rcases hrest with ⟨hrc, h₁⟩ | ⟨hrc, h₁⟩
      · obtain ⟨_, h₂⟩ | ⟨hrc', _⟩ := hrest'
        · rw [h₁, h₂]
          simp only [FinishResult.blank, h]
        · exact absurd hrc hrc'
      · obtain ⟨hrc', _⟩ | ⟨_, h₂⟩ := hrest'
        · exact absurd hrc' hrc
        · rw [h₁, h₂]
          simp only [FinishResult.blank, hwritten, h, Option.isSome_some, if_true]

/-! ## Workers and events -/

namespace Process

/-- The process with the ring and the finishes blanked. -/
def blank (p : Process) : Process :=
  { p with
    g.ringbuf := p.g.ringbuf.map LumbreRingbuf.blank
    finished := p.finished.map FinishResult.blank }

variable {clock : Clock} {p q : Process}

lemma blank_blank (p : Process) : p.blank.blank = p.blank := by
  unfold blank
  simp only [Option.map_map, List.map_map]
  congr 3
  funext r
  cases hr : r.handed <;> simp [FinishResult.blank, LumbreRingbuf.blank, hr]

lemma blank_afterFinish {r s : FinishResult} (h : p.blank = q.blank) (hr : r.blank = s.blank) :
    (p.afterFinish r).blank = (q.afterFinish s).blank := by
  have hparts : ∀ (p : Process) (r : FinishResult), (p.afterFinish r).blank =
      { p.blank with
        g.ringbuf := some r.blank.rb
        g.mpBuf := r.blank.mpBuf
        g.ctx := r.blank.ctx
        ticks := p.blank.ticks + 1
        finished := p.blank.finished ++ [r.blank] } := by
    intro p r
    unfold blank afterFinish
    dsimp only
    rw [List.map_append]
    rfl
  rw [hparts, hparts, h, hr]

/-- A finish, for two positions of the daemon. -/
lemma blank_spanFinish (clock : Clock) (p : Process) (span : LumbreSpan)
    (minDurationNs readPos readPos' : UInt64) :
    (p.spanFinish clock span minDurationNs readPos).map (fun r => (r.1.blank, r.2.blank)) =
      (p.blank.spanFinish clock span minDurationNs readPos').map fun r =>
        (r.1.blank, r.2.blank) := by
  cases hring : p.g.ringbuf with
  | none =>
      have hring' : p.blank.g.ringbuf = none := by rw [blank, hring]; rfl
      rw [spanFinish, spanFinish, hring, hring']
  | some rb =>
      have hring' : p.blank.g.ringbuf = some rb.blank := by rw [blank, hring]; rfl
      cases hbuf : p.g.mpBufPtr with
      | none =>
          have hbuf' : p.blank.g.mpBufPtr = none := hbuf
          rw [spanFinish, spanFinish, hring, hring', hbuf, hbuf']
      | some a =>
          have hbuf' : p.blank.g.mpBufPtr = some a := hbuf
          have hblank : (rb.withReadPos readPos).blank = (rb.blank.withReadPos readPos').blank := rfl
          have hresult := lumbreSpanFinish_blank hblank span p.g.mpBuf p.g.ctx minDurationNs
            (clock p.ticks) p.g.maxQueryLen.toUInt64.toUInt32
          rw [spanFinish, spanFinish, hring, hring', hbuf, hbuf']
          dsimp only [Option.map_some]
          exact congrArg some (Prod.ext hresult (blank_afterFinish p.blank_blank.symm hresult))

/-- A hook that is entered does not look at the ring. -/
lemma blank_enter (clock : Clock) (p : Process) (call : HookCall) :
    p.blank.enter clock call = ((p.enter clock call).1, (p.enter clock call).2.blank) := by
  have htype : p.blank.g.spanType call = p.g.spanType call := by cases call <;> rfl
  have hpayload : ∀ type span, p.blank.g.payload type span call = p.g.payload type span call := by
    intro type span
    cases call with
    | internal func args => rfl
    | ex func lineno => cases func <;> rfl
  unfold enter
  rw [htype]
  cases p.g.spanType call with
  | none => rfl
  | some type =>
      dsimp only
      rw [hpayload]
      rfl

/-- A hook that is left, for two positions of the daemon. -/
lemma blank_leave (clock : Clock) (p : Process) (frame : HookFrame) (readPos readPos' : UInt64) :
    (p.leave clock frame readPos).map blank = (p.blank.leave clock frame readPos').map blank := by
  cases frame with
  | passThrough => exact congrArg some p.blank_blank.symm
  | traced span =>
      have hfinish := congrArg (Option.map Prod.snd) (p.blank_spanFinish clock span
        p.g.minDurationNs.toUInt64 readPos readPos')
      rw [Option.map_map, Option.map_map] at hfinish
      rw [leave, leave, Option.map_map, Option.map_map]
      exact hfinish

/-- The root span, finished for two positions of the daemon. -/
lemma blank_phpRshutdown (clock : Clock) (p : Process) (readPos readPos' : UInt64) :
    (p.phpRshutdown clock readPos).map blank =
      (p.blank.phpRshutdown clock readPos').map blank := by
  by_cases hactive : p.g.ctx.active = 0
  · rw [phpRshutdown_inactive clock hactive,
      phpRshutdown_inactive (p := p.blank) clock hactive, Option.map_some, Option.map_some,
      p.blank_blank]
  · -- what RSHUTDOWN does behind the finish is a function of what has been compared
    have hbehind : ∀ r : FinishResult × Process,
        blank { r.2 with g.rootSpan := r.1.span, g.ctx := lumbreContextReset r.2.g.ctx } =
          { r.2.blank with
            g.rootSpan := r.1.blank.span
            g.ctx := lumbreContextReset r.2.blank.g.ctx } := fun _ => rfl
    have hfinish := congrArg (Option.map fun r : FinishResult × Process =>
      { r.2 with g.rootSpan := r.1.span, g.ctx := lumbreContextReset r.2.g.ctx })
      (p.blank_spanFinish clock p.g.rootSpan 0 readPos readPos')
    rw [Option.map_map, Option.map_map] at hfinish
    rw [phpRshutdown, phpRshutdown, if_neg hactive,
      if_neg (show p.blank.g.ctx.active ≠ 0 from hactive),
      Option.map_map, Option.map_map]
    exact hfinish

/-- `lumbre_ringbuf_init` does not look at the ring there was. -/
lemma blank_openRingbuf (p : Process) (env : RequestEnv) :
    (p.openRingbuf env).blank = (p.blank.openRingbuf env).blank := by
  obtain ⟨os', o, hinit⟩ : ∃ os' o, lumbreRingbufInit env.initAnswers p.os p.g.shmDir env.pid
      env.workerId p.g.bufferSize.toUInt64.toUInt32 = (os', o) := ⟨_, _, rfl⟩
  have hinit' : lumbreRingbufInit env.initAnswers p.blank.os p.blank.g.shmDir env.pid
      env.workerId p.blank.g.bufferSize.toUInt64.toUInt32 = (os', o) := hinit
  rw [openRingbuf, openRingbuf, hinit, hinit']
  cases o with
  | none =>
      exact congrArg (fun q : Process => { q with os := os', g.enabled := 0 }) p.blank_blank.symm
  | some rb =>
      exact congrArg (fun q : Process =>
        { q with os := os', g.ringbuf := some rb.blank, g.ringbufInitialized := 1 })
        p.blank_blank.symm

lemma blank_allocStorage (p : Process) (env : RequestEnv) :
    p.blank.allocStorage env = (p.allocStorage env).map blank := by
  cases hstorage : p.g.mpStorage with
  | some a =>
      have hstorage' : p.blank.g.mpStorage = some a := hstorage
      rw [allocStorage, allocStorage, hstorage, hstorage']
      rfl
  | none =>
      have hstorage' : p.blank.g.mpStorage = none := hstorage
      rw [allocStorage, allocStorage, hstorage, hstorage']
      cases env.pemalloc <;> rfl

/-- RINIT does not look at the ring. -/
lemma blank_phpRinit (clock : Clock) (p : Process) (env : RequestEnv) :
    (p.phpRinit clock env).blank = (p.blank.phpRinit clock env).blank := by
  have hlazy : (p.lazyInit env).blank = (p.blank.lazyInit env).blank := by
    have halloc : Process.allocStorage { p.blank with g.workerId := env.workerId } env =
        (Process.allocStorage { p with g.workerId := env.workerId } env).map blank :=
      blank_allocStorage { p with g.workerId := env.workerId } env
    unfold lazyInit
    dsimp only
    rw [halloc]
    cases hq : Process.allocStorage { p with g.workerId := env.workerId } env with
    | none =>
        exact congrArg (fun q : Process => { q with g.workerId := env.workerId, g.enabled := 0 })
          p.blank_blank.symm
    | some q =>
        exact blank_openRingbuf { q with
          g.mpBufPtr := q.g.mpStorage
          g.mpBuf.capacity := lumbreMsgpackBufSize
          g.mpBuf.pos := 0 } env
  have hroot : ∀ q : Process, ((q.initContext env).startRoot clock env).blank =
      ((q.blank.initContext env).startRoot clock env).blank := fun q =>
    congrArg (fun r : Process =>
      { (q.initContext env).startRoot clock env with
        g.ringbuf := r.g.ringbuf, finished := r.finished }) q.blank_blank.symm
  -- behind the lazy initialisation, both processes are alike
  have hbehind : ∀ q q' : Process, q.blank = q'.blank →
      (if q.g.ringbufInitialized = 0 then q else (q.initContext env).startRoot clock env).blank =
        (if q'.g.ringbufInitialized = 0 then q'
          else (q'.initContext env).startRoot clock env).blank := by
    intro q q' h
    have hflag : q.blank.g.ringbufInitialized = q'.blank.g.ringbufInitialized :=
      congrArg (fun r : Process => r.g.ringbufInitialized) h
    by_cases hzero : q.g.ringbufInitialized = 0
    · rw [if_pos hzero, if_pos (hflag ▸ hzero), h]
    · rw [if_neg hzero, if_neg (hflag ▸ hzero), hroot, h, ← hroot]
  by_cases henabled : p.g.enabled = 0
  · rw [phpRinit, phpRinit, if_pos henabled, if_pos (show p.blank.g.enabled = 0 from henabled),
      p.blank_blank]
  · rw [phpRinit, phpRinit, if_neg henabled, if_neg (show p.blank.g.enabled ≠ 0 from henabled)]
    apply hbehind
    by_cases hflag : p.g.ringbufInitialized = 0
    · rw [if_pos hflag, if_pos (show p.blank.g.ringbufInitialized = 0 from hflag), hlazy]
    · rw [if_neg hflag, if_neg (show p.blank.g.ringbufInitialized ≠ 0 from hflag), p.blank_blank]

end Process

namespace Worker

/-- The worker with the ring and the finishes blanked. -/
def blank (w : Worker) : Worker := { w with proc := w.proc.blank }

end Worker

/-- The event without the position of the daemon. -/
def Event.blank : Event → Event
  | .leave _ => .leave 0
  | .rshutdown _ => .rshutdown 0
  | e => e

namespace Worker

variable {clock : Clock}

lemma blank_settle (w : Worker) {o o' : Option Process}
    (h : o.map Process.blank = o'.map Process.blank) :
    (w.settle o).blank = (w.blank.settle o').blank := by
  cases o with
  | none =>
      rw [Option.map_eq_none_iff.mp h.symm]
      exact congrArg (fun p => { w with proc := p, faulted := true }) w.proc.blank_blank.symm
  | some p =>
      obtain ⟨p', rfl, hp⟩ := Option.map_eq_some_iff.mp h.symm
      exact congrArg (fun p => { w with proc := p }) hp.symm

/-- **An event depends on nothing that has been blanked.** -/
theorem blank_step (clock : Clock) (w : Worker) (e : Event) :
    (w.step clock e).map blank = (w.blank.step clock e.blank).map blank := by
  cases e with
  | rinit env =>
      have hrinit := w.proc.cleared.blank_phpRinit clock env
      change (if w.running = true then none else _ : Option Worker).map blank =
        (if w.running = true then none else _ : Option Worker).map blank
      split_ifs
      · rfl
      · exact congrArg (fun p => some (w.beginRequest env p)) hrinit
  | enter call =>
      change (if (!w.running) = true then none else _ : Option Worker).map blank =
        (if (!w.running) = true then none else _ : Option Worker).map blank
      split_ifs
      · rfl
      · rw [show w.blank.proc = w.proc.blank from rfl, w.proc.blank_enter]
        exact congrArg (fun p => some { w.push (w.proc.enter clock call).1 p with proc := p })
          (w.proc.enter clock call).2.blank_blank.symm
  | leave readPos =>
      unfold step
      rw [show w.blank.stack = w.stack from rfl]
      cases w.stack with
      | nil => rfl
      | cons frame rest =>
          exact congrArg some ((w.withStack rest).blank_settle
            (w.proc.blank_leave clock frame readPos 0))
  | bailout =>
      change (if (!w.running) = true then none else _ : Option Worker).map blank =
        (if (!w.running) = true then none else _ : Option Worker).map blank
      split_ifs
      · rfl
      · exact congrArg (fun p => some { w.abandon with proc := p }) w.proc.blank_blank.symm
  | iniSet change =>
      cases change with
      | enabled value =>
          exact congrArg (fun p : Process => some { w with proc := { p with g.enabled := value } })
            w.proc.blank_blank.symm
      | minDurationNs value =>
          exact congrArg (fun p : Process =>
            some { w with proc := { p with g.minDurationNs := value } }) w.proc.blank_blank.symm
  | rshutdown readPos =>
      change (if (!w.running) = true then none else _ : Option Worker).map blank =
        (if (!w.running) = true then none else _ : Option Worker).map blank
      split_ifs
      · rfl
      · exact congrArg some (w.endRequest.blank_settle (w.proc.blank_phpRshutdown clock readPos 0))

/-- **The daemon cannot change what is recorded.** Two workers that differ in the contents of their
rings at most (and in whether the ring has taken a payload) go through the same events, whatever
positions the daemon has published in the one run and in the other: in the end they differ in this
only. They have started the same spans, and have finished the same spans with the same payloads. -/
theorem daemon_changes_nothing {table : List LumbreWlStaticEntry} {w w' v : Worker}
    {es es' : List Event} (hw : w.blank = w'.blank) (hes : es.map Event.blank = es'.map Event.blank)
    (hrun : (machine clock table).run w es = some v) :
    ∃ v', (machine clock table).run w' es' = some v' ∧ v'.blank = v.blank ∧
      v'.proc.started = v.proc.started ∧
      (v'.proc.finished.map fun r => (r.span, r.handed)) =
        v.proc.finished.map fun r => (r.span, r.handed) := by
  have hruns : ((machine clock table).run w es).map blank =
      ((machine clock table).run w' es').map blank := by
    refine Machine.run_map_congr ?_ hw hes
    intro s t e f hst hef
    change (s.step clock e).map blank = (t.step clock f).map blank
    rw [blank_step, blank_step (w := t), hst, hef]
  rw [hrun, Option.map_some] at hruns
  obtain ⟨v', hrun', hblank⟩ := Option.map_eq_some_iff.mp hruns.symm
  have hstarted : v'.blank.proc.started = v.blank.proc.started := by rw [hblank]
  refine ⟨v', hrun', hblank, hstarted, ?_⟩
  have hfinished : v'.blank.proc.finished = v.blank.proc.finished := by rw [hblank]
  have hparts := congrArg (List.map fun r : FinishResult => (r.span, r.handed)) hfinished
  rw [show v'.blank.proc.finished = v'.proc.finished.map FinishResult.blank from rfl,
    show v.blank.proc.finished = v.proc.finished.map FinishResult.blank from rfl, List.map_map,
    List.map_map] at hparts
  exact hparts

/-- Two files on a ring of 128 bytes, and the request: the ring has room for the last span if the
daemon has read the other two by then. -/
theorem daemon_changes_nothing_small_ring :
    ∃ v v', (machine (fun _ => 0) lumbreWlStaticTable).run smallRing
        [.rinit plainRequest, .enter (functionCall "fopen"), .leave 0,
          .enter (functionCall "fopen"), .leave 0, .rshutdown 0] = some v ∧
      (machine (fun _ => 0) lumbreWlStaticTable).run smallRing
        [.rinit plainRequest, .enter (functionCall "fopen"), .leave 0,
          .enter (functionCall "fopen"), .leave 51, .rshutdown 102] = some v' ∧
      v.proc.finished.map (fun r => r.rc) = [0, 0, -1] ∧
      v'.proc.finished.map (fun r => r.rc) = [0, 0, 0] ∧
      (v'.proc.finished.map fun r => (r.span, r.handed)) =
        v.proc.finished.map fun r => (r.span, r.handed) := by
  have hrun : ((machine (fun _ => 0) lumbreWlStaticTable).run smallRing
      [.rinit plainRequest, .enter (functionCall "fopen"), .leave 0,
        .enter (functionCall "fopen"), .leave 0, .rshutdown 0]).map
          (fun w => w.proc.finished.map fun r => r.rc) = some [0, 0, -1] := by
    decide +kernel
  have hread : ((machine (fun _ => 0) lumbreWlStaticTable).run smallRing
      [.rinit plainRequest, .enter (functionCall "fopen"), .leave 0,
        .enter (functionCall "fopen"), .leave 51, .rshutdown 102]).map
          (fun w => w.proc.finished.map fun r => r.rc) = some [0, 0, 0] := by
    decide +kernel
  obtain ⟨v, hv, hrc⟩ := Option.map_eq_some_iff.mp hrun
  have hevents : [Event.rinit plainRequest, .enter (functionCall "fopen"), .leave 0,
        .enter (functionCall "fopen"), .leave 0, .rshutdown 0].map Event.blank =
      [Event.rinit plainRequest, .enter (functionCall "fopen"), .leave 0,
        .enter (functionCall "fopen"), .leave 51, .rshutdown 102].map Event.blank := rfl
  obtain ⟨v', hv', _, _, hsame⟩ := daemon_changes_nothing (Eq.refl smallRing.blank) hevents hv
  rw [hv', Option.map_some, Option.some_inj] at hread
  exact ⟨v, v', hv, hv', hrc, hread, hsame⟩

end Worker

end LumbreExt
