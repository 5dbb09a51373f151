import LumbreExt.Module.System
import Mathlib.Data.List.Perm.Subperm

/-!
# The records of a request

A request as the abstract machine of its ids: no clock, no ring and no payload, and a fatal error may
abandon calls at any time.

* `RequestView`, `RequestView.Step` — the context and the identities of the spans that are open, have
  been started, and are finished; `Worker.view_step`: the events of the shipped module are its steps.
* `RequestView.Ledger` — ids count up, every parent is an earlier span, and no span is finished twice.
* `Worker.spans_numbered` — the ledger of every state of every run, whatever has been abandoned.
* `System.log_requests` — the log is one block for each traced request, closed by its root span.
-/

namespace LumbreExt

open Lib

/-! ## The abstract machine -/

/-- The ids of a request. -/
@[ext]
structure RequestView where
  ctx : LumbreContext
  rootSpan : LumbreSpan.Identity
  openSpans : List LumbreSpan.Identity
  started : List LumbreSpan.Identity
  finished : List LumbreSpan.Identity

/-- What an event does to them. -/
inductive RequestView.Step : RequestView → RequestView → Prop
  /-- A request starts that is not traced; its root span is no one's business. -/
  | untraced {v : RequestView} (hactive : v.ctx.active = 0) (root : LumbreSpan.Identity) :
      Step v { v with rootSpan := root, openSpans := [], started := [], finished := [] }
  /-- A traced request starts, with its root span. -/
  | begins {v : RequestView} (hactive : v.ctx.active = 0) (traceId : TraceId) (fullTrace : ℤ)
      (startNs : UInt64) :
      Step v
        { ctx := ⟨traceId, 1, 1, 2, 1, fullTrace⟩
          rootSpan := ⟨lumbreSpanHttpIn, traceId, 1, 0, startNs⟩
          openSpans := []
          started := [⟨lumbreSpanHttpIn, traceId, 1, 0, startNs⟩]
          finished := [] }
  /-- Nothing is traced in the event. -/
  | skips (v : RequestView) : Step v v
  /-- A fatal error abandons the open calls. -/
  | abandons (v : RequestView) : Step v { v with openSpans := [] }
  /-- A traced call is entered. -/
  | starts {v : RequestView} (hactive : v.ctx.active ≠ 0) {type : LumbreSpanTypeT}
      (htype : type ≠ lumbreSpanHttpIn) (startNs : UInt64) :
      Step v
        { v with
          ctx := v.ctx.descend
          openSpans := v.ctx.nextIdentity type startNs :: v.openSpans
          started := v.started ++ [v.ctx.nextIdentity type startNs] }
  /-- The innermost traced call is left. -/
  | finishes {v : RequestView} {span : LumbreSpan.Identity} {rest : List LumbreSpan.Identity}
      (hopen : v.openSpans = span :: rest) (hactive : v.ctx.active ≠ 0) :
      Step v
        { v with
          ctx.currentParentId := span.parentId
          openSpans := rest
          finished := v.finished ++ [span] }
  /-- The traced request ends. -/
  | ends {v : RequestView} (hactive : v.ctx.active ≠ 0) :
      Step v
        { v with
          ctx := lumbreContextReset { v.ctx with currentParentId := v.rootSpan.parentId }
          openSpans := []
          finished := v.finished ++ [v.rootSpan] }

namespace RequestView

/-! ## The ledger -/

/-- Between calls: a span is the root span, or a call whose parent is an earlier span. -/
def Parented (started : List LumbreSpan.Identity) : Prop :=
  ∀ i s, started[i]? = some s →
    (i = 0 ∧ s.parentId = 0) ∨ ∃ j < i, ∃ p, started[j]? = some p ∧ s.parentId = p.spanId

/-- What holds while a request is traced. -/
structure Live (v : RequestView) : Prop where
  next : v.ctx.spanCounter = UInt64.ofNat (v.started.length + 1)
  parent : ∃ p ∈ v.started, v.ctx.currentParentId = p.spanId
  root : v.started[0]? = some v.rootSpan
  rootSpan : v.rootSpan.type = lumbreSpanHttpIn ∧ v.rootSpan.spanId = 1 ∧ v.rootSpan.parentId = 0
  traceId : ∀ s ∈ v.started, s.traceId = v.ctx.traceId
  calls : ∀ s ∈ v.finished ++ v.openSpans, s.type ≠ lumbreSpanHttpIn

/-- **The ledger of a request.** -/
structure Ledger (v : RequestView) : Prop where
  ids : v.started.map (fun s => s.spanId) = (List.range' 1 v.started.length).map UInt64.ofNat
  parents : Parented v.started
  /-- The root span is due until the request ends. -/
  once : (v.finished ++ v.openSpans ++ if v.ctx.active = 0 then [] else [v.rootSpan]).Subperm
    v.started
  live : v.ctx.active ≠ 0 → v.Live

variable {v v' : RequestView}

lemma Parented.concat {started : List LumbreSpan.Identity} (h : Parented started)
    {span p : LumbreSpan.Identity} (hp : p ∈ started) (hparent : span.parentId = p.spanId) :
    Parented (started ++ [span]) := by
  intro i s hs
  rcases Nat.lt_or_ge i started.length with hi | hi
  · rw [List.getElem?_append_left hi] at hs
    rcases h i s hs with hroot | ⟨j, hj, q, hq, heq⟩
    · exact Or.inl hroot
    · refine Or.inr ⟨j, hj, q, ?_, heq⟩
      rw [List.getElem?_append_left (by omega), hq]
  · rw [List.getElem?_append_right hi] at hs
    rw [List.getElem?_singleton] at hs
    split_ifs at hs
    obtain rfl := Option.some_inj.mp hs
    obtain ⟨j, hj⟩ := List.mem_iff_getElem?.mp hp
    have hlt := (List.getElem?_eq_some_iff.mp hj).1
    refine Or.inr ⟨j, by omega, p, ?_, hparent⟩
    rw [List.getElem?_append_left hlt, hj]

/-- A traced call is entered. -/
lemma Ledger.starts (h : v.Ledger) (hactive : v.ctx.active ≠ 0) {type : LumbreSpanTypeT}
    (htype : type ≠ lumbreSpanHttpIn) (startNs : UInt64) :
    Ledger
      { v with
        ctx := v.ctx.descend
        openSpans := v.ctx.nextIdentity type startNs :: v.openSpans
        started := v.started ++ [v.ctx.nextIdentity type startNs] } := by
  have hlive := h.live hactive
  obtain ⟨p, hp, hparent⟩ := hlive.parent
  have honce := h.once
  rw [if_neg hactive] at honce
  refine ⟨?_, h.parents.concat hp hparent, ?_, fun _ => ?_⟩
  · have hid : (v.ctx.nextIdentity type startNs).spanId =
        UInt64.ofNat (1 + v.started.length) := by
      rw [Nat.add_comm]
      exact hlive.next
    rw [List.map_append, h.ids, List.length_append, List.length_singleton, List.range'_1_concat,
      List.map_append, List.map_singleton, List.map_singleton, hid]
  · -- the new span is open, and it is the last one started
    dsimp only
    rw [if_neg (show v.ctx.descend.active ≠ 0 from hactive), List.append_assoc, List.cons_append]
    refine List.perm_middle.subperm_right.mpr
      ((List.perm_append_singleton _ _).subperm_left.mpr ?_)
    rw [List.subperm_cons, ← List.append_assoc]
    exact honce
  · refine ⟨?_, ⟨_, List.mem_append_right _ (List.mem_singleton.mpr rfl), rfl⟩, ?_, hlive.rootSpan,
      ?_, ?_⟩
    · rw [List.length_append, List.length_singleton]
      change v.ctx.spanCounter + 1 = _
      rw [hlive.next]
      exact counter_add _ 1
    · have hnonempty := (List.getElem?_eq_some_iff.mp hlive.root).1
      rw [List.getElem?_append_left hnonempty, hlive.root]
    · intro s hs
      rcases List.mem_append.mp hs with hold | hnew
      · exact hlive.traceId s hold
      · rw [List.mem_singleton.mp hnew]
        rfl
    · intro s hs
      rcases List.mem_append.mp hs with hfinished | hopen
      · exact hlive.calls s (List.mem_append_left _ hfinished)
      · rcases List.mem_cons.mp hopen with rfl | hopen
        · exact htype
        · exact hlive.calls s (List.mem_append_right _ hopen)

/-- The innermost call is left: its parent is the current one again. -/
lemma Ledger.finishes (h : v.Ledger) {span : LumbreSpan.Identity}
    {rest : List LumbreSpan.Identity} (hopen : v.openSpans = span :: rest)
    (hactive : v.ctx.active ≠ 0) :
    Ledger
      { v with
        ctx.currentParentId := span.parentId
        openSpans := rest
        finished := v.finished ++ [span] } := by
  have hlive := h.live hactive
  have honce := h.once
  have hcalls := hlive.calls
  rw [hopen] at hcalls
  rw [hopen, if_neg hactive] at honce
  have hstarted : span ∈ v.started :=
    honce.subset (List.mem_append_left _ (List.mem_append_right _ List.mem_cons_self))
  obtain ⟨i, hi⟩ := List.mem_iff_getElem?.mp hstarted
  refine ⟨h.ids, h.parents, ?_, fun _ => ⟨hlive.next, ?_, hlive.root, hlive.rootSpan,
    hlive.traceId, ?_⟩⟩
  · dsimp only
    rw [if_neg hactive, List.append_assoc v.finished]
    exact honce
  · rcases h.parents i span hi with ⟨hzero, _⟩ | ⟨j, _, p, hp, hparent⟩
    · -- the root span is not among the open calls
      rw [hzero, hlive.root] at hi
      have htype := hcalls span (List.mem_append_right _ List.mem_cons_self)
      rw [← Option.some_inj.mp hi] at htype
      exact absurd hlive.rootSpan.1 htype
    · exact ⟨p, List.mem_of_getElem? hp, hparent⟩
  · intro s hs
    rw [List.append_assoc] at hs
    exact hcalls s hs

/-- The root span is finished last. -/
lemma Ledger.ends (h : v.Ledger) (hactive : v.ctx.active ≠ 0) :
    Ledger
      { v with
        ctx := lumbreContextReset { v.ctx with currentParentId := v.rootSpan.parentId }
        openSpans := []
        finished := v.finished ++ [v.rootSpan] } := by
  have honce := h.once
  rw [if_neg hactive] at honce
  refine ⟨h.ids, h.parents, ?_, fun hne => absurd rfl hne⟩
  change (v.finished ++ [v.rootSpan] ++ [] ++ []).Subperm v.started
  rw [List.append_nil, List.append_nil]
  have hsub : (v.finished ++ [v.rootSpan]).Sublist (v.finished ++ v.openSpans ++ [v.rootSpan]) :=
    (List.sublist_append_left _ _).append_right _
  exact hsub.subperm.trans honce

/-- **Every step keeps the ledger.** -/
theorem Ledger.step (h : v.Ledger) (hstep : v.Step v') : v'.Ledger := by
  cases hstep with
  | untraced hactive root =>
      refine ⟨rfl, fun i s hs => by simp at hs, ?_, fun hne => absurd hactive hne⟩
      dsimp only
      rw [if_pos hactive]
      exact List.Subperm.refl []
  | begins hactive traceId fullTrace startNs =>
      refine ⟨show [(1 : UInt64)] = (List.range' 1 1).map UInt64.ofNat by decide, ?_,
        List.Subperm.refl _, fun _ => ?_⟩
      · intro i s hs
        rw [List.getElem?_singleton] at hs
        split_ifs at hs with hzero
        obtain rfl := Option.some_inj.mp hs
        exact Or.inl ⟨hzero, rfl⟩
      · refine ⟨rfl, ⟨_, List.mem_singleton.mpr rfl, rfl⟩, rfl, ⟨rfl, rfl, rfl⟩, ?_, ?_⟩
        · intro s hs
          rw [List.mem_singleton.mp hs]
        · exact fun s hs => absurd hs List.not_mem_nil
  | skips => exact h
  | abandons =>
      refine ⟨h.ids, h.parents, ?_, fun hactive => ?_⟩
      · have hsub : (v.finished ++ []).Sublist (v.finished ++ v.openSpans) :=
          (List.nil_sublist _).append_left _
        exact (hsub.append_right _).subperm.trans h.once
      · have hlive := h.live hactive
        refine ⟨hlive.next, hlive.parent, hlive.root, hlive.rootSpan, hlive.traceId, ?_⟩
        intro s hs
        rw [List.append_nil] at hs
        exact hlive.calls s (List.mem_append_left _ hs)
  | starts hactive htype startNs => exact h.starts hactive htype startNs
  | finishes hopen hactive => exact h.finishes hopen hactive
  | ends hactive => exact h.ends hactive

/-- While the counter does not wrap, the spans are numbered from `1`. -/
lemma Ledger.toNat_spanId (h : v.Ledger) (hlt : v.started.length < 2 ^ 64) {i : ℕ}
    {s : LumbreSpan.Identity} (hs : v.started[i]? = some s) : s.spanId.toNat = i + 1 := by
  have hi := (List.getElem?_eq_some_iff.mp hs).1
  have hid := congrArg (fun l : List UInt64 => l[i]?) h.ids
  simp only [List.getElem?_map, hs, List.getElem?_range' hi, Option.map_some,
    Option.some_inj] at hid
  rw [hid, toNat_counter]
  omega

lemma Ledger.nodup_ids (h : v.Ledger) (hlt : v.started.length < 2 ^ 64) :
    (v.started.map fun s => s.spanId).Nodup := by
  rw [h.ids]
  refine (List.nodup_range').map_on ?_
  intro m hm n hn heq
  rw [List.mem_range'_1] at hm hn
  have hnat := congrArg UInt64.toNat heq
  rw [toNat_counter, toNat_counter] at hnat
  omega

/-- A finish belongs to a traced request, and it ends it exactly when it is that of the root
span. -/
lemma Step.of_finish (h : v.Step v') {span : LumbreSpan.Identity}
    (hfinished : v'.finished = v.finished ++ [span]) :
    v.ctx.active ≠ 0 ∧ (v'.ctx.active ≠ 0 ∨ v'.ctx.active = 0 ∧ span = v.rootSpan) := by
  have hself : v.finished ≠ v.finished ++ [span] := fun heq =>
    absurd (List.self_eq_append_right.mp heq) (List.cons_ne_nil _ _)
  have hempty : [] ≠ v.finished ++ [span] :=
    (List.append_ne_nil_of_right_ne_nil _ (List.cons_ne_nil _ _)).symm
  cases h with
  | untraced _ _ => exact absurd hfinished hempty
  | begins _ _ _ _ => exact absurd hfinished hempty
  | skips => exact absurd hfinished hself
  | abandons => exact absurd hfinished hself
  | starts _ _ _ => exact absurd hfinished hself
  | finishes _ hactive => exact ⟨hactive, Or.inl hactive⟩
  | ends hactive =>
      have hlast := List.append_cancel_left hfinished
      exact ⟨hactive, Or.inr ⟨rfl, (List.cons.inj hlast).1.symm⟩⟩

/-- Without a finish, a request is as it was, or the next one has started. -/
lemma Step.of_quiet (h : v.Step v') (hquiet : v'.finished = v.finished ∨ v'.finished = []) :
    (v'.ctx.active = v.ctx.active ∧ v'.finished = v.finished) ∨
      v.ctx.active = 0 ∧ (v'.ctx.active = 0 ∨ v'.finished = []) := by
  have hnot : ∀ span, v'.finished ≠ v.finished ++ [span] := by
    intro span hfinished
    rcases hquiet with hsame | hnone
    · have hself := List.self_eq_append_right.mp (hsame.symm.trans hfinished)
      exact absurd hself (List.cons_ne_nil _ _)
    · exact absurd (hfinished.symm.trans hnone)
        (List.append_ne_nil_of_right_ne_nil _ (List.cons_ne_nil _ _))
  cases h with
  | untraced hactive _ => exact Or.inr ⟨hactive, Or.inl hactive⟩
  | begins hactive _ _ _ => exact Or.inr ⟨hactive, Or.inr rfl⟩
  | skips => exact Or.inl ⟨rfl, rfl⟩
  | abandons => exact Or.inl ⟨rfl, rfl⟩
  | starts _ _ _ => exact Or.inl ⟨rfl, rfl⟩
  | finishes _ _ => exact absurd rfl (hnot _)
  | ends _ => exact absurd rfl (hnot _)

end RequestView

namespace Worker

/-- The ids of the request a worker is in, or of the last one. -/
def view (w : Worker) : RequestView where
  ctx := w.proc.g.ctx
  rootSpan := w.proc.g.rootSpan.identity
  openSpans := w.openSpans.map LumbreSpan.identity
  started := w.proc.started.map LumbreSpan.identity
  finished := w.proc.finished.map fun r => r.span.identity

variable {clock : Clock} {w w' : Worker} {e : Event}

/-- A request starts. -/
lemma view_rinit (hsafe : w.Safe) (hidle : w.running = false) (env : RequestEnv) :
    w.view.Step (w.beginRequest env (w.proc.cleared.phpRinit clock env)).view := by
  have hinactive := hsafe.inactive hidle
  rcases hsafe.resources.cleared.phpRinit clock (hsafe.idle hinactive).1 env with
    ⟨q, hrinit, _, hsame⟩ | ⟨q, root, hrinit, hbegun⟩
  · have hview : (w.beginRequest env q).view =
        { w.view with
          rootSpan := q.g.rootSpan.identity, openSpans := [], started := [], finished := [] } :=
      RequestView.ext hsame.ctx rfl rfl (congrArg (List.map LumbreSpan.identity) hsame.started)
        (congrArg (List.map fun r : FinishResult => r.span.identity) hsame.finished)
    rw [hrinit, hview]
    exact .untraced hinactive _
  · obtain ⟨hid, hparent, fullTrace, hctx⟩ := hbegun.afterRoot_ctx
    have hroot : root.identity =
        ⟨lumbreSpanHttpIn, env.traceId, 1, 0, root.startNs⟩ := by
      have htype : root.type = lumbreSpanHttpIn := congrArg LumbreSpan.Identity.type hbegun.root
      rw [LumbreSpan.identity, htype, hbegun.rootTraceId, hid, hparent]
    have hstarted : (q.afterRoot root).started = [root] :=
      congrArg (fun l : List LumbreSpan => l ++ [root]) hbegun.started
    have hview : (w.beginRequest env (q.afterRoot root)).view =
        { ctx := ⟨env.traceId, 1, 1, 2, 1, fullTrace⟩
          rootSpan := ⟨lumbreSpanHttpIn, env.traceId, 1, 0, root.startNs⟩
          openSpans := []
          started := [⟨lumbreSpanHttpIn, env.traceId, 1, 0, root.startNs⟩]
          finished := [] } := by
      refine RequestView.ext hctx hroot rfl ?_
        (congrArg (List.map fun r : FinishResult => r.span.identity) hbegun.finished)
      change (q.afterRoot root).started.map LumbreSpan.identity = _
      rw [hstarted, List.map_singleton, hroot]
    rw [hrinit, hview]
    exact .begins hinactive _ _ _

/-- A call is entered. -/
lemma view_enter (hwhitelist : w.proc.g.whitelist = builtinWhitelist) (call : HookCall) :
    w.view.Step (w.push (w.proc.enter clock call).1 (w.proc.enter clock call).2).view := by
  rcases w.proc.enter_cases clock call with ⟨_, hpass⟩ | ⟨type, span, htype, hspan, htraced⟩
  · rw [hpass]
    exact .skips _
  · have hview : (w.push (.traced span) (w.proc.afterStart span)).view =
        { w.view with
          ctx := w.view.ctx.descend
          openSpans := w.view.ctx.nextIdentity type (clock w.proc.ticks) :: w.view.openSpans
          started := w.view.started ++ [w.view.ctx.nextIdentity type (clock w.proc.ticks)] } := by
      refine RequestView.ext rfl rfl ?_ ?_ rfl
      · change span.identity :: _ = _
        rw [hspan]
        rfl
      · change (w.proc.started ++ [span]).map LumbreSpan.identity = _
        rw [List.map_append, List.map_singleton, hspan]
        rfl
    rw [htraced, hview]
    exact .starts (LumbreGlobals.active_of_spanType htype) (spanType_ne_httpIn hwhitelist htype) _

/-- A call is left. -/
lemma view_leave (hsafe : w.Safe) {frame : HookFrame} {rest : List HookFrame}
    (hstack : w.stack = frame :: rest) (readPos : UInt64) :
    w.view.Step ((w.withStack rest).settle (w.proc.leave clock frame readPos)).view := by
  cases frame with
  | passThrough =>
      have hview : ((w.withStack rest).settle (some w.proc)).view = w.view := by
        refine RequestView.ext rfl rfl ?_ rfl rfl
        exact congrArg (List.map LumbreSpan.identity) (openSpans_passThrough hstack)
      rw [show w.proc.leave clock .passThrough readPos = some w.proc from rfl, hview]
      exact .skips _
  | traced span =>
      have hopen := openSpans_traced hstack
      have hactive := hsafe.active_of_openSpans hopen
      obtain ⟨r, hr, hleave⟩ :=
        Process.leave_traced clock (hsafe.active hactive).1.ready span readPos
      have hview : ((w.withStack rest).settle (some (w.proc.afterFinish r))).view =
          { w.view with
            ctx.currentParentId := span.identity.parentId
            openSpans := (w.withStack rest).openSpans.map LumbreSpan.identity
            finished := w.view.finished ++ [span.identity] } := by
        refine RequestView.ext hr.ctx rfl rfl rfl ?_
        change (w.proc.finished ++ [r]).map (fun r => r.span.identity) = _
        rw [List.map_append, List.map_singleton, hr.identity]
        rfl
      rw [hleave, hview]
      exact .finishes (congrArg (List.map LumbreSpan.identity) hopen) hactive

/-- A request ends. -/
lemma view_rshutdown (hsafe : w.Safe) (readPos : UInt64) :
    w.view.Step (w.endRequest.settle (w.proc.phpRshutdown clock readPos)).view := by
  by_cases hactive : w.proc.g.ctx.active = 0
  · rw [Process.phpRshutdown_inactive clock hactive]
    exact .abandons _
  · obtain ⟨r, hr, hshutdown⟩ :=
      Process.phpRshutdown_active clock (hsafe.active hactive).1.ready hactive readPos
    have hview : (w.endRequest.settle (some (w.proc.afterShutdown r))).view =
        { w.view with
          ctx := lumbreContextReset { w.view.ctx with currentParentId := w.view.rootSpan.parentId }
          rootSpan := w.view.rootSpan
          openSpans := []
          finished := w.view.finished ++ [w.view.rootSpan] } := by
      refine RequestView.ext (congrArg lumbreContextReset hr.ctx) hr.identity rfl rfl ?_
      change (w.proc.finished ++ [r]).map (fun r => r.span.identity) = _
      rw [List.map_append, List.map_singleton, hr.identity]
      rfl
    rw [hshutdown, hview]
    exact .ends hactive

/-- **The shipped module refines the machine of the ids.** -/
theorem view_step (hsafe : w.Safe) (hwhitelist : w.proc.g.whitelist = builtinWhitelist)
    (hstep : w.step clock e = some w') : w.view.Step w'.view := by
  cases transition_of_step hstep with
  | rinit env hidle => exact view_rinit hsafe hidle env
  | enter call _ => exact view_enter hwhitelist call
  | leave readPos hstack => exact view_leave hsafe hstack readPos
  | bailout _ => exact .abandons _
  | iniSet change => cases change <;> exact .skips _
  | rshutdown readPos _ => exact view_rshutdown hsafe readPos

/-! ## The ledger of a worker -/

/-- The ledger is kept in every run. -/
lemma ledger_of_reachable (h : (machine clock lumbreWlStaticTable).Reachable w) :
    w.view.Ledger := by
  induction h with
  | start hstart =>
      obtain ⟨settings, g, hg, rfl⟩ := hstart
      obtain ⟨whitelist, _, rfl⟩ := Option.map_eq_some_iff.mp hg
      exact ⟨rfl, fun i s hs => by simp [view, fresh] at hs, List.Subperm.refl _,
        fun hne => absurd rfl hne⟩
  | step hreach hstep ih =>
      exact ih.step
        (view_step (safe_of_reachable hreach) (whitelist_of_reachable hreach) hstep)

/-- **Ids, parents and finishes, whatever fails.** In every state of every run of the shipped module,
bailouts included: the spans of the request carry the ids `1, 2, 3, …` in the order they were started;
each is the root span, without a parent, or names an earlier one; and what is finished is among them,
no span twice, so that no id is finished twice while the counter does not wrap. -/
theorem spans_numbered (h : (machine clock lumbreWlStaticTable).Reachable w) :
    w.proc.started.map (fun s => s.spanId) =
        (List.range' 1 w.proc.started.length).map UInt64.ofNat ∧
      (∀ i s, w.proc.started[i]? = some s → (i = 0 ∧ s.parentId = 0) ∨
        ∃ j < i, ∃ p, w.proc.started[j]? = some p ∧ s.parentId = p.spanId) ∧
      (w.proc.finished.map fun r => r.span.identity).Subperm
        (w.proc.started.map LumbreSpan.identity) ∧
      (w.proc.started.length < 2 ^ 64 → (w.proc.finished.map fun r => r.span.spanId).Nodup) := by
  have hledger := ledger_of_reachable h
  have hids : w.proc.started.map (fun s => s.spanId) =
      (List.range' 1 w.proc.started.length).map UInt64.ofNat := by
    have hview := hledger.ids
    simp only [view, List.map_map, List.length_map] at hview
    exact hview
  have honce : (w.proc.finished.map fun r => r.span.identity).Subperm
      (w.proc.started.map LumbreSpan.identity) := by
    have hsub := (List.sublist_append_left (w.view.finished) w.view.openSpans).trans
      (List.sublist_append_left _ (if w.view.ctx.active = 0 then [] else [w.view.rootSpan]))
    exact hsub.subperm.trans hledger.once
  refine ⟨hids, ?_, honce, ?_⟩
  · intro i s hs
    have hview : w.view.started[i]? = some s.identity := by
      rw [view, List.getElem?_map, hs]
      rfl
    rcases hledger.parents i _ hview with hroot | ⟨j, hj, p, hp, hparent⟩
    · exact Or.inl hroot
    · rw [view, List.getElem?_map] at hp
      obtain ⟨q, hq, rfl⟩ := Option.map_eq_some_iff.mp hp
      exact Or.inr ⟨j, hj, q, hq, hparent⟩
  · intro hlt
    have hnodup : (w.proc.started.map fun s => s.spanId).Nodup := by
      have hview := hledger.nodup_ids (by rwa [view, List.length_map])
      rw [view, List.map_map] at hview
      exact hview
    obtain ⟨l, hperm, hsub⟩ := honce
    have hmap := hsub.map LumbreSpan.Identity.spanId
    have hids' := hperm.map LumbreSpan.Identity.spanId
    rw [List.map_map] at hmap hids'
    exact hids'.nodup_iff.mp (hnodup.sublist hmap)

/-- A call abandoned by a fatal error, and a call behind it. -/
theorem spans_numbered_bailout :
    ∃ w, (machine (fun _ => 0) lumbreWlStaticTable).run shipped
        [.rinit plainRequest, .enter (functionCall "fopen"), .bailout,
          .enter (functionCall "fopen"), .leave 0, .rshutdown 0] = some w ∧
      w.proc.started.map (fun s => s.spanId) = [1, 2, 3] ∧
      (w.proc.finished.map fun r => r.span.spanId).Nodup := by
  have hrun : ((machine (fun _ => 0) lumbreWlStaticTable).run shipped
      [.rinit plainRequest, .enter (functionCall "fopen"), .bailout,
        .enter (functionCall "fopen"), .leave 0, .rshutdown 0]).map
          (fun w => w.proc.started.length) = some 3 := by
    decide +kernel
  obtain ⟨w, hrun, hlength⟩ := Option.map_eq_some_iff.mp hrun
  obtain ⟨hids, _, _, hnodup⟩ := spans_numbered ((Machine.Reachable.start start_shipped).run hrun)
  refine ⟨w, hrun, ?_, hnodup (by rw [hlength]; decide)⟩
  rw [hids, hlength]
  rfl

/-! ## The requests in the log -/

/-- The finishes of the request that is being traced. -/
def current (w : Worker) : List FinishResult :=
  if w.proc.g.ctx.active = 0 then [] else w.proc.finished

lemma current_of_active (h : w.proc.g.ctx.active ≠ 0) : w.current = w.proc.finished := if_neg h

lemma current_of_inactive (h : w.proc.g.ctx.active = 0) : w.current = [] := if_pos h

/-- An event that adds nothing to the record does not end a request. -/
lemma current_of_quiet (h : w.view.Step w'.view)
    (hquiet : w'.proc.finished = w.proc.finished ∨ w'.proc.finished = []) :
    w'.current = w.current := by
  have hviews : w'.view.finished = w.view.finished ∨ w'.view.finished = [] :=
    hquiet.imp (fun heq => congrArg (List.map fun r : FinishResult => r.span.identity) heq)
      (fun heq => List.map_eq_nil_iff.mpr heq)
  rcases h.of_quiet hviews with ⟨hactive, hfinished⟩ | ⟨hbefore, hafter⟩
  · have hsame : w'.proc.finished = w.proc.finished := by
      rcases hquiet with hsame | hnone
      · exact hsame
      · have hlength := congrArg List.length hfinished
        simp only [view, List.length_map] at hlength
        rw [hnone] at hlength
        rw [hnone, List.length_eq_zero_iff.mp hlength.symm]
    have hactive' : w'.proc.g.ctx.active = w.proc.g.ctx.active := hactive
    rw [current, current, hactive', hsame]
  · rw [current_of_inactive (w := w) hbefore]
    rcases hafter with hinactive | hnone
    · exact current_of_inactive hinactive
    · have hnone' : w'.proc.finished = [] := List.map_eq_nil_iff.mp hnone
      rw [current, hnone', ite_self]

/-- The finish of a call is one more of the request, that of the root span ends it. -/
lemma current_of_finish {r : FinishResult} (h : w.view.Step w'.view)
    (hfinished : w'.proc.finished = w.proc.finished ++ [r]) :
    w.proc.g.ctx.active ≠ 0 ∧
      (w'.current = w.current ++ [r] ∨
        (w'.current = [] ∧ r.span.identity = w.proc.g.rootSpan.identity)) := by
  have hviews : w'.view.finished = w.view.finished ++ [r.span.identity] := by
    rw [view, hfinished, List.map_append]
    rfl
  obtain ⟨hactive, hactive' | ⟨hinactive, hroot⟩⟩ := h.of_finish hviews
  · refine ⟨hactive, Or.inl ?_⟩
    rw [current_of_active hactive, current_of_active (w := w') hactive', hfinished]
  · exact ⟨hactive, Or.inr ⟨current_of_inactive hinactive, hroot⟩⟩

/-- The finishes of the request that is being traced are calls of it. -/
lemma current_calls (h : w.view.Ledger) {r : FinishResult} (hr : r ∈ w.current) :
    r.span.type ≠ lumbreSpanHttpIn ∧ r.span.traceId = w.proc.g.ctx.traceId := by
  unfold current at hr
  split_ifs at hr with hactive
  · exact absurd hr List.not_mem_nil
  · have hlive := h.live hactive
    have hmem : r.span.identity ∈ w.view.finished := List.mem_map_of_mem hr
    have hstarted := h.once.subset (List.mem_append_left _ (List.mem_append_left _ hmem))
    exact ⟨hlive.calls _ (List.mem_append_left _ hmem), hlive.traceId _ hstarted⟩

end Worker

/-- The finishes of one traced request: its calls, with the trace id of the root span, and the root
span behind them. -/
def RequestBlock (block : List FinishResult) : Prop :=
  ∃ calls root, block = calls ++ [root] ∧
    (root.span.type = lumbreSpanHttpIn ∧ root.span.spanId = 1 ∧ root.span.parentId = 0) ∧
    ∀ r ∈ calls, r.span.type ≠ lumbreSpanHttpIn ∧ r.span.traceId = root.span.traceId

namespace System

variable {clock : Clock} {s s' : System}

/-- A finish, or none: the last block is closed by the root span. -/
lemma Step.blocks {Allowed : Event → Prop} {Observes : Spsc → ℕ → Prop}
    (h : Step clock Allowed Observes s s')
    (hreach : (Worker.machine clock lumbreWlStaticTable).Reachable s.worker)
    {blocks : List (List FinishResult)} (hlog : s.log = blocks.flatten ++ s.worker.current)
    (hall : ∀ b ∈ blocks, RequestBlock b) :
    ∃ blocks' : List (List FinishResult), s'.log = blocks'.flatten ++ s'.worker.current ∧
      ∀ b ∈ blocks', RequestBlock b := by
  have hview : ∀ {e w'}, s.worker.step clock e = some w' → s.worker.view.Step w'.view :=
    Worker.view_step (Worker.safe_of_reachable hreach) (Worker.whitelist_of_reachable hreach)
  cases h with
  | event _ _ hstep hquiet =>
      exact ⟨blocks, by rw [hlog, Worker.current_of_quiet (hview hstep) hquiet], hall⟩
  | @finish c e w r n _ _ _ hstep hfinished _ _ _ =>
      have hledger := Worker.ledger_of_reachable hreach
      obtain ⟨hactive, hmore | ⟨hnone, hroot⟩⟩ := Worker.current_of_finish (hview hstep) hfinished
      · exact ⟨blocks, by rw [hlog, hmore, List.append_assoc], hall⟩
      · have hlive := hledger.live hactive
        have htrace : r.span.traceId = s.worker.proc.g.ctx.traceId :=
          (congrArg LumbreSpan.Identity.traceId hroot).trans
            (hlive.traceId _ (List.mem_of_getElem? hlive.root))
        obtain ⟨htype, hid, hparent⟩ := hlive.rootSpan
        refine ⟨blocks ++ [s.worker.current ++ [r]], ?_, ?_⟩
        · rw [hlog, hnone, List.flatten_concat, List.append_assoc, List.append_nil]
        · intro b hb
          rcases List.mem_append.mp hb with hold | hnew
          · exact hall b hold
          · rw [List.mem_singleton.mp hnew]
            refine ⟨s.worker.current, r, rfl, ⟨?_, ?_, ?_⟩, ?_⟩
            · exact (congrArg LumbreSpan.Identity.type hroot).trans htype
            · exact (congrArg LumbreSpan.Identity.spanId hroot).trans hid
            · exact (congrArg LumbreSpan.Identity.parentId hroot).trans hparent
            · intro r' hr'
              obtain ⟨hcall, htrace'⟩ := Worker.current_calls hledger hr'
              exact ⟨hcall, htrace'.trans htrace.symm⟩
  | perform _ _ => exact ⟨blocks, hlog, hall⟩
  | consume _ _ => exact ⟨blocks, hlog, hall⟩
  | publish _ => exact ⟨blocks, hlog, hall⟩

/-- **The log is one block for each traced request.** In every run of the shipped module and the
daemon, bailouts included: the finishes of the traced requests so far stand in the log one request
after the other, each closed by its root span, which is the only `HTTP_IN` span in it and whose trace
id all of them carry; behind them stand the finishes of the request that is being traced. -/
theorem log_requests {Allowed : Event → Prop} {Observes : Spsc → ℕ → Prop} {w : Worker}
    (hw : Worker.Start lumbreWlStaticTable w) (h : Reachable clock Allowed Observes w s) :
    ∃ blocks : List (List FinishResult),
      s.log = blocks.flatten ++ s.worker.current ∧ (∀ b ∈ blocks, RequestBlock b) ∧
      ∀ r ∈ s.worker.current, r.span.type ≠ lumbreSpanHttpIn ∧
        r.span.traceId = s.worker.proc.g.ctx.traceId := by
  have hblocks : ∃ blocks : List (List FinishResult),
      s.log = blocks.flatten ++ s.worker.current ∧ ∀ b ∈ blocks, RequestBlock b := by
    induction h with
    | refl =>
        refine ⟨[], ?_, fun b hb => absurd hb List.not_mem_nil⟩
        obtain ⟨settings, g, hg, rfl⟩ := hw
        obtain ⟨whitelist, _, rfl⟩ := Option.map_eq_some_iff.mp hg
        rfl
    | tail hrun hstep ih =>
        obtain ⟨blocks, hlog, hall⟩ := ih
        exact hstep.blocks (worker_reachable hw hrun) hlog hall
  obtain ⟨blocks, hlog, hall⟩ := hblocks
  exact ⟨blocks, hlog, hall, fun r hr =>
    Worker.current_calls (Worker.ledger_of_reachable (worker_reachable hw h)) hr⟩

/-- A worker starts its next request without waiting for the daemon. -/
lemma exists_unattended_rinit {k : ℕ} (Allowed : Event → Prop) (h : Coupled k s) {c : Spsc}
    (hring : s.ring = some c) (hc : Untouched c) {env : RequestEnv} {w' : Worker}
    (hallowed : Allowed (.rinit env)) (hstep : s.worker.step clock (.rinit env) = some w') :
    ∃ c', Relation.ReflTransGen (Step clock Allowed Spsc.ObservesRecent) s ⟨w', some c', s.log⟩ ∧
      Untouched c' := by
  obtain ⟨c', new, hsteps, hc', hfinished⟩ := exists_unattended_step Allowed h hring hc hallowed
    (by simp) hstep
  have hnone := Worker.finished_rinit hstep
  have hnew : new = [] := by
    rcases hfinished with hkept | ⟨_, _, hnew⟩
    · exact (List.append_eq_nil_iff.mp (hkept.symm.trans hnone)).2
    · exact hnew
  rw [hnew, List.append_nil] at hsteps
  exact ⟨c', hsteps, hc'⟩

/-- A request with nested calls, and a second one that has opened a file so far. -/
theorem log_requests_second_request :
    ∃ (s : System) (blocks : List (List FinishResult)) (r : FinishResult),
      Reachable countingClock (fun _ => True) Spsc.ObservesRecent Worker.shipped s ∧
        s.log.map (fun r => r.span.fields) = tracedSpans ++ [r.span.fields] ∧
        s.worker.current = [r] ∧ r.span.type ≠ lumbreSpanHttpIn ∧
        s.log = blocks.flatten ++ [r] ∧ ∀ b ∈ blocks, RequestBlock b := by
  obtain ⟨_, _, s, c, hopened, hsteps, hc, huntouched, hlog, _, hworker⟩ :=
    exists_tracedRequest (fun _ => True) trivial fun _ _ => trivial
  have hs := hopened.trans hsteps
  have hcoupled := coupled_of_reachable (k := 22) Worker.start_shipped (by decide +kernel)
    (by decide) hs
  -- the worker of the second request
  have hsecond : ((Worker.machine countingClock lumbreWlStaticTable).run Worker.shipped
      ((.rinit Worker.plainRequest :: tracedCalls) ++
        [.rinit Worker.plainRequest, .enter (Worker.functionCall "fopen"), .leave 0])).map
          (fun w => (w.proc.g.ctx.active, w.proc.finished.length)) = some (1, 1) := by
    decide +kernel
  obtain ⟨w₃, hrun, hview⟩ := Option.map_eq_some_iff.mp hsecond
  obtain ⟨hactive, hone⟩ := Prod.mk.inj hview
  rw [Machine.run_append, hworker, Option.bind_some, Machine.run_cons] at hrun
  obtain ⟨w₂, hrinit, hrest⟩ := Option.bind_eq_some_iff.mp hrun
  have hnone := Worker.finished_rinit hrinit
  obtain ⟨c₂, hsteps₂, hc₂⟩ :=
    exists_unattended_rinit (fun _ => True) hcoupled hc huntouched trivial hrinit
  have hcalls : ∀ e ∈ [Event.enter (Worker.functionCall "fopen"), .leave 0], True ∧
      (∀ env, e ≠ .rinit env) ∧
        ∀ readPos, e = .leave readPos ∨ e = .rshutdown readPos → readPos = 0 := by
    simp
  obtain ⟨c₃, new, hsteps₃, _, hfinished⟩ := exists_unattended (hcoupled.steps (by decide) hsteps₂)
    (by decide) rfl hc₂ hcalls hrest
  rw [hnone, List.nil_append] at hfinished
  obtain ⟨r, rfl⟩ := List.length_eq_one_iff.mp (hfinished ▸ hone)
  have hcurrent : w₃.current = [r] := by
    rw [Worker.current_of_active (by rw [hactive]; decide), hfinished]
  obtain ⟨blocks, hblocks, hall, hopen⟩ :=
    log_requests Worker.start_shipped ((hs.trans hsteps₂).trans hsteps₃)
  dsimp only at hblocks hopen
  rw [hcurrent] at hblocks hopen
  refine ⟨_, blocks, r, (hs.trans hsteps₂).trans hsteps₃, ?_, hcurrent,
    (hopen r (List.mem_singleton.mpr rfl)).1, hblocks, hall⟩
  rw [List.map_append, hlog]
  rfl

end System

end LumbreExt
