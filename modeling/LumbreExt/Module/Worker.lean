import LumbreExt.Lib.Machine
import LumbreExt.Module.Hooks
import LumbreExt.Whitelist.Table

/-!
# One worker, request after request

The machine of a worker that serves any number of requests. Its events come from PHP: a request
starts, a hook is entered or left, a fatal error abandons the open hooks, the request shuts down,
`ini_set` changes a setting.

* `Worker` — the process, the hooks that are open, the last request and whether it is running,
  whether a traced call of it was abandoned, and whether an access went through a `NULL` pointer.
* `Event`, `Worker.step` — `none` is an event that PHP does not send in that state: hooks run inside
  a request only, and a hook that is left is the one entered last.
* `Worker.startedBy`, `Worker.openSpans` — the span an event starts, and the spans of the calls that
  are still open.

The hooks are C calls, so on one stack they return in the reverse order. No script switches stacks
inside a traced call: a `Fiber`, which PHP has from 8.1 on, could leave a hook while one entered later
is still open on another stack. (A generator is no such case: its hook returns when it yields.)
-/

namespace LumbreExt

open Lib

/-- A change of a setting while PHP runs. -/
inductive IniChange
  | enabled (value : UInt8)
  | minDurationNs (value : Int64)

/-- `lumbre.enabled` and `lumbre.min_duration_ns` are the settings a script may change. -/
def Process.iniSet (p : Process) : IniChange → Process
  | .enabled value => { p with g.enabled := value }
  | .minDurationNs value => { p with g.minDurationNs := value }

/-- What happens to a worker. `readPos` is the position the daemon has published by then. -/
inductive Event
  | rinit (env : RequestEnv)
  | enter (call : HookCall)
  | leave (readPos : UInt64)
  | bailout
  | iniSet (change : IniChange)
  | rshutdown (readPos : UInt64)

/-- The state of a worker. -/
structure Worker where
  proc : Process
  /-- The open hooks, the innermost first. -/
  stack : List HookFrame
  /-- The last request; `running` says whether it is in progress. -/
  request : Option RequestEnv
  running : Bool
  /-- Whether a fatal error has abandoned an open traced call of the request. -/
  abandoned : Bool
  faulted : Bool

/-- The span of an open hook, if it has started one. -/
def HookFrame.span? : HookFrame → Option LumbreSpan
  | .passThrough => none
  | .traced span => some span

namespace Worker

/-- The spans of the calls that are open, the innermost first. -/
def openSpans (w : Worker) : List LumbreSpan := w.stack.filterMap HookFrame.span?

/-- The worker behind a step of the process; an access through `NULL` is recorded. -/
def settle (w : Worker) : Option Process → Worker
  | none => { w with faulted := true }
  | some p => { w with proc := p }

/-- The worker in a new request. -/
def beginRequest (w : Worker) (env : RequestEnv) (p : Process) : Worker :=
  { w with proc := p, stack := [], request := some env, running := true, abandoned := false }

/-- The worker inside one more hook. -/
def push (w : Worker) (frame : HookFrame) (p : Process) : Worker :=
  { w with proc := p, stack := frame :: w.stack }

/-- The worker with other hooks open. -/
def withStack (w : Worker) (stack : List HookFrame) : Worker := { w with stack }

/-- The worker behind a fatal error. -/
def abandon (w : Worker) : Worker :=
  { w with stack := [], abandoned := w.abandoned || !w.openSpans.isEmpty }

/-- The worker behind a change of a setting. -/
def iniSet (w : Worker) (change : IniChange) : Worker :=
  { w with proc := w.proc.iniSet change }

/-- The worker outside a request. -/
def endRequest (w : Worker) : Worker := { w with stack := [], running := false }

/-- What an event does. Without Fibers, PHP leaves the hook it entered last. -/
def step (clock : Clock) (w : Worker) : Event → Option Worker
  | .rinit env =>
      if w.running then none
      -- the records are those of the new request
      else some (w.beginRequest env (w.proc.cleared.phpRinit clock env))
  | .enter call =>
      if !w.running then none
      else
        let r := w.proc.enter clock call
        some (w.push r.1 r.2)
  | .leave readPos =>
      match w.stack with
      | [] => none
      | frame :: rest => some ((w.withStack rest).settle (w.proc.leave clock frame readPos))
  | .bailout =>
      if !w.running then none
      else some w.abandon
  | .iniSet change => some (w.iniSet change)
  | .rshutdown readPos =>
      if !w.running then none
      else some (w.endRequest.settle (w.proc.phpRshutdown clock readPos))

/-- A worker before its first request. -/
def fresh (g : LumbreGlobals) : Worker where
  proc := ⟨g, ⟨0, 0, []⟩, 0, 0, [], []⟩
  stack := []
  request := none
  running := false
  abandoned := false
  faulted := false

/-- The workers that GINIT and MINIT leave behind. -/
def Start (table : List LumbreWlStaticEntry) (w : Worker) : Prop :=
  ∃ settings g, phpGinit table settings = some g ∧ w = fresh g

/-- The machine of a worker whose static table is `table`. -/
def machine (clock : Clock) (table : List LumbreWlStaticEntry) : Machine Worker Event where
  Start := Start table
  step := step clock

/-- The span an event starts through a hook. -/
def startedBy (clock : Clock) (w : Worker) : Event → Option LumbreSpan
  | .enter call => (w.proc.enter clock call).1.span?
  | _ => none

/-- The worker of the module as it is shipped, with its default settings. -/
def shipped : Worker := fresh (freshGlobals iniDefaults builtinWhitelist)

lemma start_shipped : Start lumbreWlStaticTable shipped :=
  ⟨iniDefaults, _, by rw [phpGinit, lumbreWhitelistInit_builtin]; rfl, rfl⟩

end Worker

end LumbreExt
