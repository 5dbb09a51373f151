import LumbreExt.Module.Lifecycle

/-!
# Parents across a fatal error

The implicit stack of the module is one number, `current_parent_id`, that only the tail of
`lumbre_span_finish` restores. A fatal error skips that tail, and PHP still runs shutdown functions in
the same request.

* `Worker.ParentOpen` — the span an event starts, if any, names the call of an open span as its
  parent, or the root span when no traced call is open.
* `Worker.EntersUnabandoned` — no traced function is entered once a traced call of the request has
  been abandoned.
* `Worker.Chained` — the invariant: unless a traced call has been abandoned, `current_parent_id` and
  the parents of the open spans spell the stack of hooks.
* `Worker.parentOpen_of_entersUnabandoned` — in every run whose steps all meet the condition, every
  span has an open parent; `Worker.abandoned_parent` is a run that does not.
* `Worker.abandoned_parent_of_started` — conversely, the first span that is started behind an
  abandoned call names that call as its parent.
-/

namespace LumbreExt

open Lib

namespace Worker

/-- The parent of a span that an event starts is open: the call of an open span, or the root span
when there is none. -/
def ParentOpen (clock : Clock) (w : Worker) (e : Event) : Prop :=
  ∀ span, w.startedBy clock e = some span →
    (w.openSpans = [] ∧ span.parentId = w.proc.g.rootSpan.spanId) ∨
      ∃ s ∈ w.openSpans, span.parentId = s.spanId

/-- A call that is entered after a traced call of the request was abandoned is passed through. -/
def EntersUnabandoned (w : Worker) : Event → Prop
  | .enter call => w.abandoned = true → w.proc.g.spanType call = none
  | _ => True

instance (w : Worker) : ∀ e, Decidable (w.EntersUnabandoned e)
  | .enter call =>
      inferInstanceAs (Decidable (w.abandoned = true → w.proc.g.spanType call = none))
  | .rinit _ | .leave _ | .bailout | .iniSet _ | .rshutdown _ => isTrue trivial

/-- The id of the innermost open call: that of the root span, when no other is open. -/
def innermost (root : UInt64) : List LumbreSpan → UInt64
  | [] => root
  | s :: _ => s.spanId

/-- Every open span names the next one as its parent, and the last one names the root span. -/
def Chain (root : UInt64) : List LumbreSpan → Prop
  | [] => True
  | s :: rest => s.parentId = innermost root rest ∧ Chain root rest

/-- The context and the open spans spell the stack of calls. -/
structure Spells (p : Process) (openSpans : List LumbreSpan) : Prop where
  current : p.g.ctx.currentParentId = innermost p.g.rootSpan.spanId openSpans
  chain : Chain p.g.rootSpan.spanId openSpans

/-- **The stack invariant.** -/
structure Chained (w : Worker) : Prop where
  safe : w.Safe
  spells : w.abandoned = false → w.proc.g.ctx.active ≠ 0 → Spells w.proc w.openSpans

variable {w w' : Worker} {clock : Clock}

lemma chained_start {table : List LumbreWlStaticEntry} (h : Start table w) : w.Chained := by
  refine ⟨safe_start h, ?_⟩
  intro _ hactive
  obtain ⟨settings, g, hg, rfl⟩ := h
  obtain ⟨whitelist, _, rfl⟩ := Option.map_eq_some_iff.mp hg
  exact absurd rfl hactive

/-- RINIT starts the root span as the only open call. -/
lemma Chained.rinit (h : w.Chained) (hidle : w.running = false) (env : RequestEnv)
    (hactive : (w.proc.cleared.phpRinit clock env).g.ctx.active ≠ 0) :
    Spells (w.proc.cleared.phpRinit clock env) [] := by
  have hinactive := h.safe.inactive hidle
  have hzero := (h.safe.idle hinactive).1
  rcases h.safe.resources.cleared.phpRinit clock hzero env with
    ⟨q, hrinit, _, hsame⟩ | ⟨q, root, hrinit, hbegun⟩
  · rw [hrinit, hsame.ctx] at hactive
    exact absurd hinactive hactive
  · obtain ⟨hid, _, fullTrace, hctx⟩ := hbegun.afterRoot_ctx
    rw [hrinit]
    refine ⟨?_, trivial⟩
    rw [hctx]
    exact hid.symm

/-- A traced call is entered below the innermost open one. -/
lemma Spells.enter {p : Process} {openSpans : List LumbreSpan} (h : Spells p openSpans)
    {span : LumbreSpan} {type : LumbreSpanTypeT} {clockNs : UInt64}
    (hspan : span.identity = p.g.ctx.nextIdentity type clockNs) :
    Spells (p.afterStart span) (span :: openSpans) := by
  have hid : span.spanId = p.g.ctx.spanCounter := congrArg LumbreSpan.Identity.spanId hspan
  have hparent : span.parentId = p.g.ctx.currentParentId :=
    congrArg LumbreSpan.Identity.parentId hspan
  exact ⟨hid.symm, hparent.trans h.current, h.chain⟩

/-- The innermost call is left: its parent becomes the current one. -/
lemma Spells.leave {p : Process} {span : LumbreSpan} {openSpans : List LumbreSpan}
    (h : Spells p (span :: openSpans)) {r : FinishResult} (hctx : r.ctx = p.g.ctx.unwind span) :
    Spells (p.afterFinish r) openSpans := by
  refine ⟨?_, h.chain.2⟩
  have hcurrent : (p.afterFinish r).g.ctx.currentParentId = span.parentId := by
    unfold Process.afterFinish
    dsimp only
    rw [hctx]
    rfl
  exact hcurrent.trans h.chain.1

/-- A hook is entered. -/
lemma Chained.enter (h : w.Chained) (call : HookCall) (hkept : w.abandoned = false)
    (hactive : (w.push (w.proc.enter clock call).1 (w.proc.enter clock call).2).proc.g.ctx.active ≠ 0) :
    Spells (w.push (w.proc.enter clock call).1 (w.proc.enter clock call).2).proc
      (w.push (w.proc.enter clock call).1 (w.proc.enter clock call).2).openSpans := by
  rcases w.proc.enter_cases clock call with ⟨_, hpass⟩ | ⟨type, span, htype, hspan, htraced⟩
  · rw [hpass] at hactive ⊢
    exact h.spells hkept hactive
  · rw [htraced]
    exact (h.spells hkept (LumbreGlobals.active_of_spanType htype)).enter hspan

/-- A hook is left. -/
lemma Chained.leave (h : w.Chained) {frame : HookFrame} {rest : List HookFrame}
    (hstack : w.stack = frame :: rest) (readPos : UInt64)
    (hkept : ((w.withStack rest).settle (w.proc.leave clock frame readPos)).abandoned = false)
    (hactive : ((w.withStack rest).settle
      (w.proc.leave clock frame readPos)).proc.g.ctx.active ≠ 0) :
    Spells ((w.withStack rest).settle (w.proc.leave clock frame readPos)).proc
      ((w.withStack rest).settle (w.proc.leave clock frame readPos)).openSpans := by
  cases frame with
  | passThrough =>
      have hspells := h.spells hkept hactive
      rw [← openSpans_passThrough hstack] at hspells
      exact hspells
  | traced span =>
      have hopen := openSpans_traced hstack
      have hopened := (h.safe.active (h.safe.active_of_openSpans hopen)).1
      obtain ⟨r, hr, hleave⟩ := Process.leave_traced clock hopened.ready span readPos
      rw [hleave] at hkept ⊢
      have hspells := h.spells hkept (h.safe.active_of_openSpans hopen)
      rw [hopen] at hspells
      exact hspells.leave hr.ctx

/-- A fatal error leaves the invariant to be kept only when no traced call was open. -/
lemma Chained.abandon (h : w.Chained) (hkept : w.abandon.abandoned = false)
    (hactive : w.proc.g.ctx.active ≠ 0) : Spells w.proc [] := by
  have hclear : (w.abandoned || !w.openSpans.isEmpty) = false := hkept
  rw [Bool.or_eq_false_iff, Bool.not_eq_false', List.isEmpty_iff] at hclear
  have hspells := h.spells hclear.1 hactive
  rw [hclear.2] at hspells
  exact hspells

/-- RSHUTDOWN leaves no active context behind. -/
lemma Chained.rshutdown_inactive (h : w.Chained) (readPos : UInt64) :
    (w.endRequest.settle (w.proc.phpRshutdown clock readPos)).proc.g.ctx.active = 0 := by
  by_cases hzero : w.proc.g.ctx.active = 0
  · rw [Process.phpRshutdown_inactive clock hzero]
    exact hzero
  · obtain ⟨r, _, hshutdown⟩ :=
      Process.phpRshutdown_active clock (h.safe.active hzero).1.ready hzero readPos
    rw [hshutdown]
    rfl

/-- **Every step preserves the invariant.** -/
theorem Chained.step (h : w.Chained) {e : Event} (hstep : w.step clock e = some w') :
    w'.Chained := by
  refine ⟨h.safe.step clock hstep, ?_⟩
  cases transition_of_step hstep with
  | rinit env hidle => exact fun _ hactive => h.rinit hidle env hactive
  | enter call _ => exact h.enter call
  | leave readPos hstack => exact h.leave hstack readPos
  | bailout _ => exact h.abandon
  | iniSet change =>
      intro hkept hactive
      cases change <;> exact ⟨(h.spells hkept hactive).current, (h.spells hkept hactive).chain⟩
  | rshutdown readPos _ =>
      intro _ hactive
      exact absurd (h.rshutdown_inactive readPos) hactive

/-- Under the invariant, a span that starts has an open parent. -/
lemma Chained.parentOpen (h : w.Chained) {e : Event} (hcond : w.EntersUnabandoned e) :
    w.ParentOpen clock e := by
  intro started hstarted
  cases e with
  | enter call =>
      change (w.proc.enter clock call).1.span? = some started at hstarted
      rcases w.proc.enter_cases clock call with ⟨_, hpass⟩ | ⟨type, span, htype, hspan, htraced⟩
      · rw [hpass] at hstarted
        exact absurd hstarted (Option.some_ne_none _).symm
      · rw [htraced] at hstarted
        obtain rfl : span = started := Option.some_inj.mp hstarted
        have hkept : w.abandoned = false := by
          by_contra habandoned
          rw [hcond (Bool.eq_true_of_not_eq_false habandoned)] at htype
          exact Option.some_ne_none _ htype.symm
        have hactive := LumbreGlobals.active_of_spanType htype
        have hparent : span.parentId = innermost w.proc.g.rootSpan.spanId w.openSpans :=
          (congrArg LumbreSpan.Identity.parentId hspan).trans (h.spells hkept hactive).current
        cases hopen : w.openSpans with
        | nil =>
            rw [hopen] at hparent
            exact Or.inl ⟨rfl, hparent⟩
        | cons s rest =>
            rw [hopen] at hparent
            exact Or.inr ⟨s, List.mem_cons_self, hparent⟩
  | rinit env => exact absurd hstarted (Option.some_ne_none _).symm
  | leave readPos => exact absurd hstarted (Option.some_ne_none _).symm
  | bailout => exact absurd hstarted (Option.some_ne_none _).symm
  | iniSet change => exact absurd hstarted (Option.some_ne_none _).symm
  | rshutdown readPos => exact absurd hstarted (Option.some_ne_none _).symm

/-- **No span is parented to an abandoned call, as long as none is started after the abandonment.**
In every run in which no traced function is entered once a fatal error has abandoned a traced call of
the same request, every span is started with an open parent. -/
theorem parentOpen_of_entersUnabandoned {table : List LumbreWlStaticEntry} (hstart : Start table w)
    {es : List Event} (h : (machine clock table).AllSteps EntersUnabandoned w es) :
    (machine clock table).AllSteps (ParentOpen clock) w es :=
  Machine.AllSteps.of_invariant (fun _ _ _ hw _ hstep => Chained.step hw hstep)
    (fun _ _ hw hcond => hw.parentOpen hcond) (chained_start hstart) h

/-- A fatal error inside a file access that is not traced leaves nothing behind: the query of a
shutdown function has the root span as its parent. -/
theorem parentOpen_of_entersUnabandoned_untraced :
    (machine (fun _ => 0) lumbreWlStaticTable).AllSteps (ParentOpen fun _ => 0) shipped
      [.rinit plainRequest, .enter (functionCall "fopen"), .leave 0,
        .enter (functionCall "strlen"), .bailout, .enter (methodCall "PDO" "query"), .leave 0,
        .rshutdown 0] :=
  parentOpen_of_entersUnabandoned start_shipped (by decide +kernel)

/-- A fatal error inside a traced query, and a shutdown function that makes a traced call: PHP sends
these events, and the span of the call is parented to the abandoned query, which is span `2`. -/
theorem abandoned_parent :
    Start lumbreWlStaticTable shipped ∧
      (machine (fun _ => 0) lumbreWlStaticTable).AllSteps (fun _ _ => True) shipped
        [.rinit plainRequest, .enter (methodCall "PDO" "query"), .bailout,
          .enter (functionCall "curl_exec")] ∧
      ¬ (machine (fun _ => 0) lumbreWlStaticTable).AllSteps (ParentOpen fun _ => 0) shipped
        [.rinit plainRequest, .enter (methodCall "PDO" "query"), .bailout,
          .enter (functionCall "curl_exec")] := by
  refine ⟨start_shipped, by decide +kernel, ?_⟩
  intro h
  obtain ⟨_, w, hrun, hlast, _⟩ := Machine.allSteps_append.mp
    (show (machine _ _).AllSteps _ shipped ([.rinit plainRequest, .enter (methodCall "PDO" "query"),
      .bailout] ++ [.enter (functionCall "curl_exec")]) from h)
  have hobserved : ((machine (fun _ => 0) lumbreWlStaticTable).run shipped
      [.rinit plainRequest, .enter (methodCall "PDO" "query"), .bailout]).map (fun w =>
        (w.openSpans.length, w.proc.g.rootSpan.spanId,
          (w.startedBy (fun _ => 0) (.enter (functionCall "curl_exec"))).map fun s => s.parentId)) =
      some (0, 1, some 2) := by decide +kernel
  rw [hrun, Option.map_some, Option.some.injEq, Prod.mk.injEq, Prod.mk.injEq,
    Option.map_eq_some_iff] at hobserved
  obtain ⟨hopen, hroot, span, hspan, hparent⟩ := hobserved
  rcases hlast span hspan with ⟨_, heq⟩ | ⟨s, hs, _⟩
  · rw [hparent, hroot] at heq
    exact absurd heq (by decide)
  · rw [List.length_eq_zero_iff.mp hopen] at hs
    exact absurd hs List.not_mem_nil

/-! ## Behind an abandoned call -/

/-- No traced call is open, and `current_parent_id` is still that of the call `id`. -/
structure Stale (id : UInt64) (w : Worker) : Prop where
  openSpans : w.openSpans = []
  current : w.proc.g.ctx.currentParentId = id

/-- An event inside the request that starts no span. -/
def StartsNothing (clock : Clock) (w : Worker) (e : Event) : Prop :=
  w.startedBy clock e = none ∧ (∀ env, e ≠ .rinit env) ∧ ∀ readPos, e ≠ .rshutdown readPos

/-- A fatal error that abandons traced calls leaves the id of the innermost one behind. -/
lemma Chained.stale_abandon (h : w.Chained) (hkept : w.abandoned = false) {s : LumbreSpan}
    {rest : List LumbreSpan} (hopen : w.openSpans = s :: rest) : Stale s.spanId w.abandon := by
  have hspells := h.spells hkept (h.safe.active_of_openSpans hopen)
  rw [hopen] at hspells
  exact ⟨rfl, hspells.current⟩

/-- Within the request it stays, until a span is started. -/
lemma Stale.step {id : UInt64} (h : Stale id w) {e : Event}
    (hnothing : w.StartsNothing clock e) (hstep : w.step clock e = some w') : Stale id w' := by
  obtain ⟨hquiet, hrinit, hrshutdown⟩ := hnothing
  cases transition_of_step hstep with
  | rinit env _ => exact absurd rfl (hrinit env)
  | rshutdown readPos _ => exact absurd rfl (hrshutdown readPos)
  | bailout _ => exact ⟨rfl, h.current⟩
  | iniSet change => cases change <;> exact ⟨h.openSpans, h.current⟩
  | enter call _ =>
      change (w.proc.enter clock call).1.span? = none at hquiet
      rcases w.proc.enter_cases clock call with ⟨_, hpass⟩ | ⟨_, span, _, _, htraced⟩
      · rw [hpass]
        exact ⟨h.openSpans, h.current⟩
      · rw [htraced] at hquiet
        exact absurd hquiet (Option.some_ne_none _)
  | @leave readPos frame rest hstack =>
      cases frame with
      | passThrough => exact ⟨(openSpans_passThrough hstack).trans h.openSpans, h.current⟩
      | traced span =>
          exact absurd ((openSpans_traced hstack).symm.trans h.openSpans) (List.cons_ne_nil _ _)

/-- The next span names the abandoned call, which is open no more. -/
lemma Stale.startedBy {id : UInt64} (h : Stale id w) {e : Event} {span : LumbreSpan}
    (hstarted : w.startedBy clock e = some span) :
    span.parentId = id ∧ (w.ParentOpen clock e ↔ id = w.proc.g.rootSpan.spanId) := by
  have hparent : span.parentId = id := by
    cases e with
    | enter call =>
        change (w.proc.enter clock call).1.span? = some span at hstarted
        rcases w.proc.enter_cases clock call with ⟨_, hpass⟩ | ⟨_, started, _, hspan, htraced⟩
        · rw [hpass] at hstarted
          exact absurd hstarted (Option.some_ne_none _).symm
        · rw [htraced] at hstarted
          obtain rfl : started = span := Option.some_inj.mp hstarted
          exact (congrArg LumbreSpan.Identity.parentId hspan).trans h.current
    | rinit _ | leave _ | bailout | iniSet _ | rshutdown _ =>
        exact absurd hstarted (Option.some_ne_none _).symm
  refine ⟨hparent, ?_⟩
  constructor
  · intro hopen
    rcases hopen span hstarted with ⟨_, hroot⟩ | ⟨s, hs, _⟩
    · exact hparent.symm.trans hroot
    · rw [h.openSpans] at hs
      exact absurd hs List.not_mem_nil
  · rintro hroot span' hspan'
    obtain rfl := Option.some_inj.mp (hstarted.symm.trans hspan')
    exact Or.inl ⟨h.openSpans, hparent.trans hroot⟩

/-- **The first span behind an abandoned call gets that call as its parent.** In every run: when a
fatal error abandons open traced calls, and nothing was abandoned in the request before, the next span
that is started in the request names the innermost abandoned call. So its parent is not open, unless
the ids have wrapped around to that of the root span. -/
theorem abandoned_parent_of_started {table : List LumbreWlStaticEntry}
    (h : (machine clock table).Reachable w) (hkept : w.abandoned = false) {s : LumbreSpan}
    {rest : List LumbreSpan} (hopen : w.openSpans = s :: rest) {es : List Event}
    (hquiet : (machine clock table).AllSteps (StartsNothing clock) w.abandon es)
    (hrun : (machine clock table).run w.abandon es = some w') {e : Event} {span : LumbreSpan}
    (hstarted : w'.startedBy clock e = some span) :
    span.parentId = s.spanId ∧
      (w'.ParentOpen clock e ↔ s.spanId = w'.proc.g.rootSpan.spanId) := by
  have hchained : w.Chained :=
    h.invariant (fun _ => chained_start) fun _ _ _ hw hstep => hw.step hstep
  have hstale : Stale s.spanId w' :=
    hquiet.run_invariant (fun _ _ _ hw hnothing hstep => hw.step hnothing hstep)
      (hchained.stale_abandon hkept hopen) hrun
  exact hstale.startedBy hstarted

end Worker

end LumbreExt
