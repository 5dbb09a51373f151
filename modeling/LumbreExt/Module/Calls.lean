import LumbreExt.Lib.Forest
import LumbreExt.Module.Lifecycle

/-!
# Requests as call trees

What PHP does between RINIT and RSHUTDOWN when every hook that is entered is also left.

* `Body` — a well-nested run: calls with what happens inside them, and changes of settings in between.
* `evalBody` — the run as a recursive function. It returns the forest of the traced calls; what an
  untraced call encloses moves up to the call around it.
* `Worker.run_events` — the machine of the worker does the same on the events of the body.
* `Replay` — a run, without the calls that leave no trace: what happened from one process to the
  next, node by node. `exists_replay` is the rule that turns an induction over bodies into one over
  replays, in every worker whose ring is open.
* `Request`, `Worker.exists_request` — a whole request, from RINIT to RSHUTDOWN.
-/

namespace LumbreExt

open Lib

/-! ## Bodies -/

/-- A well-nested run of hook calls and changes of settings. `readPos` is the position the daemon has
published when the call is left. -/
inductive Body
  | done
  | iniSet (change : IniChange) (rest : Body)
  | call (call : HookCall) (inner : Body) (readPos : UInt64) (rest : Body)

/-- The events of a body, in order. -/
def Body.events : Body → List Event
  | done => []
  | iniSet change rest => .iniSet change :: rest.events
  | call c inner readPos rest => .enter c :: (inner.events ++ .leave readPos :: rest.events)

/-- All changes of settings in a body satisfy `P`. -/
def Body.AllChanges (P : IniChange → Prop) : Body → Prop
  | done => True
  | iniSet change rest => P change ∧ rest.AllChanges P
  | call _ inner _ rest => inner.AllChanges P ∧ rest.AllChanges P

/-- A traced call: the context it is entered in, its span as started, and the result of its finish. -/
structure SpanRecord where
  entered : LumbreContext
  span : LumbreSpan
  finish : FinishResult

/-- A body run in a worker: the worker behind it, and the traced calls. `none` is an access through a
`NULL` pointer. -/
def evalBody (clock : Clock) : Body → Process → Option (Process × Forest SpanRecord)
  | .done, p => some (p, .nil)
  | .iniSet change rest, p => evalBody clock rest (p.iniSet change)
  | .call c inner readPos rest, p =>
      match p.enter clock c with
      | (.passThrough, p₁) =>
          (evalBody clock inner p₁).bind fun i =>
            (evalBody clock rest i.1).map fun o => (o.1, i.2.append o.2)
      | (.traced span, p₁) =>
          (evalBody clock inner p₁).bind fun i =>
            (i.1.spanFinish clock span i.1.g.minDurationNs.toUInt64 readPos).bind fun r =>
              (evalBody clock rest r.2).map fun o => (o.1, .node ⟨p.g.ctx, span, r.1⟩ i.2 o.2)

/-! ## The machine runs a body -/

namespace Worker

/-- **The machine does what `evalBody` says.** Whatever is open around it, the events of a body can
happen one after the other, and only the process changes. -/
theorem run_events {clock : Clock} {table : List LumbreWlStaticEntry} {body : Body} {w : Worker}
    {p' : Process} {f : Forest SpanRecord} (hrunning : w.running = true)
    (h : evalBody clock body w.proc = some (p', f)) :
    (machine clock table).run w body.events = some { w with proc := p' } := by
  induction body generalizing w p' f with
  | done =>
      cases h
      rfl
  | iniSet change rest ih => exact ih (w := w.iniSet change) hrunning h
  | call c inner readPos rest ihinner ihrest =>
      have henter : (machine clock table).step w (.enter c) =
          some (w.push (w.proc.enter clock c).1 (w.proc.enter clock c).2) := by
        unfold machine Worker.step
        simp [hrunning]
      rw [Body.events, Machine.run_cons, henter, Option.bind_some, Machine.run_append]
      unfold evalBody at h
      generalize hentered : w.proc.enter clock c = entered at h henter ⊢
      obtain ⟨frame, p₁⟩ := entered
      cases frame with
      | passThrough =>
          obtain ⟨⟨p₂, i⟩, hi, h⟩ := Option.bind_eq_some_iff.mp h
          obtain ⟨⟨p₃, o⟩, ho, h⟩ := Option.map_eq_some_iff.mp h
          cases h
          rw [ihinner (w := w.push .passThrough p₁) hrunning hi, Option.bind_some,
            Machine.run_cons]
          exact ihrest (w := { w with proc := p₂ }) hrunning ho
      | traced span =>
          obtain ⟨⟨p₂, i⟩, hi, h⟩ := Option.bind_eq_some_iff.mp h
          obtain ⟨⟨r, p₃⟩, hr, h⟩ := Option.bind_eq_some_iff.mp h
          obtain ⟨⟨p₄, o⟩, ho, h⟩ := Option.map_eq_some_iff.mp h
          cases h
          have hleave : p₂.leave clock (.traced span) readPos = some p₃ := by
            unfold Process.leave
            dsimp only at hr ⊢
            rw [hr]
            rfl
          have hstep : (machine clock table).step { w.push (.traced span) p₁ with proc := p₂ }
              (.leave readPos) = some { w with proc := p₃ } := by
            unfold machine Worker.step push
            dsimp only
            rw [hleave]
            rfl
          rw [ihinner (w := w.push (.traced span) p₁) hrunning hi, Option.bind_some,
            Machine.run_cons, hstep]
          exact ihrest (w := { w with proc := p₃ }) hrunning ho

end Worker

/-! ## Replays -/

/-- What happened between two states of a worker: changes of settings that satisfy `P`, and traced
calls. -/
inductive Replay (clock : Clock) (P : IniChange → Prop) :
    Process → Forest SpanRecord → Process → Prop
  | nil (p : Process) : Replay clock P p .nil p
  | iniSet {p p' : Process} {f : Forest SpanRecord} (change : IniChange) (hchange : P change)
      (hrest : Replay clock P (p.iniSet change) f p') : Replay clock P p f p'
  | append {p p₁ p₂ : Process} {f g : Forest SpanRecord} (hinner : Replay clock P p f p₁)
      (hrest : Replay clock P p₁ g p₂) : Replay clock P p (f.append g) p₂
  | node {p p₁ p₂ : Process} {f g : Forest SpanRecord} {c : HookCall} {type : LumbreSpanTypeT}
      {span : LumbreSpan} {r : FinishResult} (htype : p.g.spanType c = some type)
      (hspan : span.identity = p.g.ctx.nextIdentity type (clock p.ticks))
      (hinner : Replay clock P (p.afterStart span) f p₁)
      (hfinish : p₁.Finished clock span p₁.g.minDurationNs.toUInt64 r)
      (hrest : Replay clock P (p₁.afterFinish r) g p₂) :
      Replay clock P p (.node ⟨p.g.ctx, span, r⟩ f g) p₂

/-- **A body can be run in every worker whose ring is open**, and its run is a replay. -/
theorem exists_replay (clock : Clock) {P : IniChange → Prop} {body : Body}
    (hchanges : body.AllChanges P) {p : Process} (h : p.Opened) :
    ∃ p' f, evalBody clock body p = some (p', f) ∧ p'.Opened ∧ Replay clock P p f p' := by
  induction body generalizing p with
  | done => exact ⟨p, .nil, rfl, h, .nil p⟩
  | iniSet change rest ih =>
      obtain ⟨p', f, heval, hopened, hreplay⟩ := ih hchanges.2 (h.iniSet change)
      exact ⟨p', f, heval, hopened, .iniSet change hchanges.1 hreplay⟩
  | call c inner readPos rest ihinner ihrest =>
      unfold evalBody
      rcases p.enter_cases clock c with ⟨_, hpass⟩ | ⟨type, span, htype, hspan, htraced⟩
      · obtain ⟨p₁, f, hinner, hopened₁, hreplay₁⟩ := ihinner hchanges.1 h
        obtain ⟨p₂, g, hrest, hopened₂, hreplay₂⟩ := ihrest hchanges.2 hopened₁
        refine ⟨p₂, f.append g, ?_, hopened₂, .append hreplay₁ hreplay₂⟩
        rw [hpass]
        dsimp only
        rw [hinner, Option.bind_some, hrest, Option.map_some]
      · obtain ⟨p₁, f, hinner, hopened₁, hreplay₁⟩ := ihinner hchanges.1 (h.afterStart span)
        obtain ⟨r, hr, hfinish⟩ := Process.spanFinish_eq clock hopened₁.ready span
          p₁.g.minDurationNs.toUInt64 readPos
        obtain ⟨p₂, g, hrest, hopened₂, hreplay₂⟩ :=
          ihrest hchanges.2 (hopened₁.afterFinish hr.capacity)
        refine ⟨p₂, .node ⟨p.g.ctx, span, r⟩ f g, ?_, hopened₂,
          .node htype hspan hreplay₁ hr hreplay₂⟩
        rw [htraced]
        dsimp only
        rw [hinner, Option.bind_some, hfinish, Option.bind_some, hrest, Option.map_some]

/-! ## Requests -/

/-- The context stays active throughout a replay. -/
lemma Replay.active {clock : Clock} {P : IniChange → Prop} {p p' : Process}
    {f : Forest SpanRecord} (h : Replay clock P p f p') :
    p'.g.ctx.active = p.g.ctx.active := by
  induction h with
  | nil p => rfl
  | iniSet change hchange hrest ih => cases change <;> exact ih
  | append hinner hrest ihinner ihrest => exact ihrest.trans ihinner
  | node htype hspan hinner hfinish hrest ihinner ihrest =>
      exact ihrest.trans ((congrArg LumbreContext.active hfinish.ctx).trans ihinner)

/-- The root span of the worker is left alone by a replay. -/
lemma Replay.rootSpan {clock : Clock} {P : IniChange → Prop} {p p' : Process}
    {f : Forest SpanRecord} (h : Replay clock P p f p') : p'.g.rootSpan = p.g.rootSpan := by
  induction h with
  | nil p => rfl
  | iniSet change hchange hrest ih => cases change <;> exact ih
  | append hinner hrest ihinner ihrest => exact ihrest.trans ihinner
  | node htype hspan hinner hfinish hrest ihinner ihrest => exact ihrest.trans ihinner

/-- A traced request: the worker `q` in front of its root span, the worker `p` behind its body, the
calls in between, and the finish of the root span. -/
structure Request (clock : Clock) (P : IniChange → Prop) (env : RequestEnv) (body : Body)
    (p₀ q p : Process) (root : LumbreSpan) (calls : Forest SpanRecord) (r : FinishResult) :
    Prop where
  begun : Process.Begun clock env p₀.cleared q root
  eval : evalBody clock body (p₀.cleared.phpRinit clock env) = some (p, calls)
  replay : Replay clock P (q.afterRoot root) calls p
  finish : p.Finished clock root 0 r

/-- **Every traced request of every run can be served to its end.** -/
theorem Worker.exists_request {clock : Clock} {table : List LumbreWlStaticEntry} {w : Worker}
    (hreach : (machine clock table).Reachable w) (hidle : w.running = false) (env : RequestEnv)
    (hactive : (w.proc.cleared.phpRinit clock env).g.ctx.active ≠ 0) {P : IniChange → Prop}
    {body : Body} (hchanges : body.AllChanges P) (readPos : UInt64) :
    ∃ q p root calls r w', Request clock P env body w.proc q p root calls r ∧
      (machine clock table).run w (.rinit env :: (body.events ++ [.rshutdown readPos])) = some w' ∧
      w'.proc = p.afterShutdown r := by
  have hsafe := safe_of_reachable hreach
  have hinactive := hsafe.inactive hidle
  rcases hsafe.resources.cleared.phpRinit clock (hsafe.idle hinactive).1 env with
    ⟨q, hrinit, _, hsame⟩ | ⟨q, root, hrinit, hbegun⟩
  · rw [hrinit, hsame.ctx] at hactive
    exact absurd hinactive hactive
  obtain ⟨p, calls, heval, hopened, hreplay⟩ :=
    exists_replay clock hchanges (hbegun.opened.afterRoot root)
  have hstill : p.g.ctx.active ≠ 0 := by
    rw [hrinit] at hactive
    rw [hreplay.active]
    exact hactive
  have hroot : p.g.rootSpan = root := hreplay.rootSpan
  obtain ⟨r, hr, hshutdown⟩ := Process.phpRshutdown_active clock hopened.ready hstill readPos
  rw [hroot] at hr
  have hbegin : (machine clock table).step w (.rinit env) =
      some (w.beginRequest env (q.afterRoot root)) := by
    unfold machine Worker.step
    simp [hidle, hrinit]
  have hbody : (machine clock table).run (w.beginRequest env (q.afterRoot root)) body.events =
      some { w.beginRequest env (q.afterRoot root) with proc := p } := run_events rfl heval
  refine ⟨q, p, root, calls, r,
    { w.beginRequest env p with running := false, proc := p.afterShutdown r },
    ⟨hbegun, hrinit ▸ heval, hreplay, hr⟩, ?_, rfl⟩
  rw [Machine.run_cons, hbegin, Option.bind_some, Machine.run_append, hbody, Option.bind_some,
    Machine.run_cons]
  unfold machine Worker.step
  dsimp only [beginRequest, endRequest, settle]
  simp [hshutdown]

end LumbreExt
