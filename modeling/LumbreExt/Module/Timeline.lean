import LumbreExt.Lib.Timeline
import LumbreExt.Module.Requests
import LumbreExt.Module.SelfTime

/-!
# The spans of a request on the clock

What a flame graph of a request can rely on, whatever its script does on one stack: calls may be
abandoned by a fatal error, and calls behind it are recorded again. With Fibers, whose hooks return in
another order, spans can cross.

* `Worker.timeline`, `Worker.timeline_steps` — the open and the finished spans of a worker as the
  intervals of a time line; the events of a worker are steps of it.
* `RequestView.Settled` — no span is started in a call that has been finished.
* `Worker.spans_nest` — the spans of a request never cross, and each lies inside its parent.
-/

namespace LumbreExt

open Lib

/-- The interval of a finished span on the clock. -/
def FinishResult.interval (r : FinishResult) : ℕ × ℕ :=
  (r.span.startNs.toNat, r.span.startNs.toNat + r.span.durationNs.toNat)

/-! ## The time line of a worker -/

namespace Worker

/-- The spans that are still to be finished, the innermost first. -/
def due (w : Worker) : List LumbreSpan :=
  w.openSpans ++ if w.proc.g.ctx.active = 0 then [] else [w.proc.g.rootSpan]

/-- The spans of the request on the clock. -/
def timeline (clock : Clock) (w : Worker) : Timeline ℕ where
  now := clock.at w.proc.ticks
  starts := w.proc.started.map fun s => s.startNs.toNat
  opened := w.due.map fun s => s.startNs.toNat
  closed := w.proc.finished.map FinishResult.interval

variable {clock : Clock} {w w' : Worker} {e : Event}

lemma due_of_active (h : w.proc.g.ctx.active ≠ 0) : w.due = w.openSpans ++ [w.proc.g.rootSpan] := by
  rw [due, if_neg h]

lemma due_of_inactive (h : w.proc.g.ctx.active = 0) : w.due = w.openSpans := by
  rw [due, if_pos h, List.append_nil]

/-- A finish closes the interval at the present. -/
lemma interval_of_finished {p : Process} {span : LumbreSpan} {minDurationNs : UInt64}
    {r : FinishResult} (h : p.Finished clock span minDurationNs r)
    (hle : span.startNs.toNat ≤ clock.at p.ticks) :
    r.interval = (span.startNs.toNat, clock.at p.ticks) := by
  have hstart : r.span.startNs = span.startNs := congrArg LumbreSpan.Identity.startNs h.identity
  rw [FinishResult.interval, h.duration, hstart,
    UInt64.toNat_sub_of_le _ _ (UInt64.le_iff_toNat_le.mpr hle)]
  exact congrArg (Prod.mk _) (Nat.add_sub_cancel' hle)

/-- RINIT begins a new line, with the root span on it if the request is traced. -/
lemma timeline_rinit (hclock : clock.Monotonic) (hsafe : w.Safe) (hidle : w.running = false)
    (env : RequestEnv) :
    Relation.ReflTransGen Timeline.Step (w.timeline clock)
      ((w.beginRequest env (w.proc.cleared.phpRinit clock env)).timeline clock) := by
  have hinactive := hsafe.inactive hidle
  rcases hsafe.resources.cleared.phpRinit clock (hsafe.idle hinactive).1 env with
    ⟨q, hrinit, _, hsame⟩ | ⟨q, root, hrinit, hbegun⟩
  · have hq : q.g.ctx.active = 0 := (congrArg LumbreContext.active hsame.ctx).trans hinactive
    have hline : (w.beginRequest env q).timeline clock = ⟨clock.at q.ticks, [], [], []⟩ := by
      rw [timeline, due_of_inactive (w := w.beginRequest env q) hq]
      change Timeline.mk _ (q.started.map _) _ (q.finished.map _) = _
      rw [hsame.started, hsame.finished]
      rfl
    rw [hrinit, hline]
    exact .single (.restarts _ _)
  · obtain ⟨_, _, fullTrace, hctx⟩ := hbegun.afterRoot_ctx
    have hactive : (q.afterRoot root).g.ctx.active ≠ 0 := by
      rw [hctx]
      exact one_ne_zero
    have hstart : root.startNs.toNat = clock.at q.ticks :=
      congrArg (fun i : LumbreSpan.Identity => i.startNs.toNat) hbegun.root
    have hline : (w.beginRequest env (q.afterRoot root)).timeline clock =
        ⟨clock.at (q.ticks + 1), [clock.at q.ticks], [clock.at q.ticks], []⟩ := by
      rw [timeline, due_of_active (w := w.beginRequest env (q.afterRoot root)) hactive]
      change Timeline.mk _ ((q.started ++ [root]).map _) [root.startNs.toNat] (q.finished.map _) = _
      rw [hbegun.started, hbegun.finished, hstart]
      exact congrArg (fun a => Timeline.mk _ [a] _ _) hstart
    rw [hrinit, hline]
    exact .head (.restarts _ (clock.at q.ticks))
      (.head (.starts _) (.single (.passes (hclock.at_le (Nat.le_succ _)))))

/-- A call is entered. -/
lemma timeline_enter (hclock : clock.Monotonic) (call : HookCall) :
    Relation.ReflTransGen Timeline.Step (w.timeline clock)
      ((w.push (w.proc.enter clock call).1 (w.proc.enter clock call).2).timeline clock) := by
  rcases w.proc.enter_cases clock call with ⟨_, hpass⟩ | ⟨type, span, _, hspan, htraced⟩
  · rw [hpass]
    exact .refl
  · have hstart : span.startNs.toNat = clock.at w.proc.ticks :=
      congrArg (fun i : LumbreSpan.Identity => i.startNs.toNat) hspan
    have hline : (w.push (.traced span) (w.proc.afterStart span)).timeline clock =
        { w.timeline clock with
          now := clock.at (w.proc.ticks + 1)
          starts := (w.timeline clock).starts ++ [(w.timeline clock).now]
          opened := (w.timeline clock).now :: (w.timeline clock).opened } := by
      change Timeline.mk _ ((w.proc.started ++ [span]).map _) (span.startNs.toNat :: _) _ = _
      rw [List.map_append, List.map_singleton, hstart]
      rfl
    rw [htraced, hline]
    exact .head (.starts _) (.single (.passes (hclock.at_le (Nat.le_succ _))))

/-- A call is left. -/
lemma timeline_leave (hclock : clock.Monotonic) (hsafe : w.Safe)
    (hnested : (w.timeline clock).WellNested) {frame : HookFrame} {rest : List HookFrame}
    (hstack : w.stack = frame :: rest) (readPos : UInt64) :
    Relation.ReflTransGen Timeline.Step (w.timeline clock)
      (((w.withStack rest).settle (w.proc.leave clock frame readPos)).timeline clock) := by
  cases frame with
  | passThrough =>
      have hline : (w.withStack rest).timeline clock = w.timeline clock := by
        rw [timeline, due, openSpans_passThrough hstack]
        rfl
      change Relation.ReflTransGen _ _ ((w.withStack rest).timeline clock)
      rw [hline]
  | traced span =>
      have hopen := openSpans_traced hstack
      have hactive := hsafe.active_of_openSpans hopen
      obtain ⟨r, hr, hleave⟩ :=
        Process.leave_traced clock (hsafe.active hactive).1.ready span readPos
      have hopened : (w.timeline clock).opened =
          span.startNs.toNat :: ((w.withStack rest).due.map fun s => s.startNs.toNat) := by
        rw [timeline, due, hopen]
        rfl
      have hinterval := interval_of_finished hr (hnested.opened_le _
        (hopened ▸ List.mem_cons_self))
      have hdue : ((w.withStack rest).settle (some (w.proc.afterFinish r))).due =
          (w.withStack rest).due := by
        have hctx : r.ctx.active = w.proc.g.ctx.active := by
          rw [hr.ctx]
          rfl
        rw [due, due]
        change _ ++ (if r.ctx.active = 0 then [] else _) = _
        rw [hctx]
        rfl
      have hline : ((w.withStack rest).settle (some (w.proc.afterFinish r))).timeline clock =
          { w.timeline clock with
            now := clock.at (w.proc.ticks + 1)
            opened := (w.withStack rest).due.map fun s => s.startNs.toNat
            closed := (w.timeline clock).closed ++
              [(span.startNs.toNat, (w.timeline clock).now)] } := by
        rw [timeline, hdue]
        change Timeline.mk _ _ _ ((w.proc.finished ++ [r]).map _) = _
        rw [List.map_append, List.map_singleton, hinterval]
        rfl
      rw [hleave, hline]
      exact .head (.stops hopened) (.single (.passes (hclock.at_le (Nat.le_succ _))))

/-- The request ends: the open calls are given up, and the root span is closed. -/
lemma timeline_rshutdown (hclock : clock.Monotonic) (hsafe : w.Safe)
    (hnested : (w.timeline clock).WellNested) (readPos : UInt64) :
    Relation.ReflTransGen Timeline.Step (w.timeline clock)
      ((w.endRequest.settle (w.proc.phpRshutdown clock readPos)).timeline clock) := by
  by_cases hactive : w.proc.g.ctx.active = 0
  · have hline : w.endRequest.timeline clock = { w.timeline clock with opened := [] } := by
      rw [timeline, due_of_inactive (w := w.endRequest) hactive]
      rfl
    rw [Process.phpRshutdown_inactive clock hactive]
    change Relation.ReflTransGen _ _ (w.endRequest.timeline clock)
    rw [hline]
    exact .single (.abandons (List.nil_sublist _))
  · obtain ⟨r, hr, hshutdown⟩ :=
      Process.phpRshutdown_active clock (hsafe.active hactive).1.ready hactive readPos
    have hopened : (w.timeline clock).opened =
        (w.openSpans.map fun s => s.startNs.toNat) ++ [w.proc.g.rootSpan.startNs.toNat] := by
      rw [timeline, due_of_active hactive, List.map_append]
      rfl
    have hinterval := interval_of_finished hr (hnested.opened_le _
      (hopened ▸ List.mem_append_right _ (List.mem_singleton.mpr rfl)))
    have hline : (w.endRequest.settle (some (w.proc.afterShutdown r))).timeline clock =
        { w.timeline clock with
          now := clock.at (w.proc.ticks + 1)
          opened := []
          closed := (w.timeline clock).closed ++
            [(w.proc.g.rootSpan.startNs.toNat, (w.timeline clock).now)] } := by
      rw [timeline, due_of_inactive (w := w.endRequest.settle (some (w.proc.afterShutdown r))) rfl]
      change Timeline.mk _ _ _ ((w.proc.finished ++ [r]).map _) = _
      rw [List.map_append, List.map_singleton, hinterval]
      rfl
    rw [hshutdown, hline]
    have hrest : [w.proc.g.rootSpan.startNs.toNat].Sublist (w.timeline clock).opened :=
      hopened ▸ List.sublist_append_right _ _
    exact .head (.abandons hrest)
      (.head (.stops rfl) (.single (.passes (hclock.at_le (Nat.le_succ _)))))

/-- **The events of a worker are steps of its time line.** -/
theorem timeline_steps (hclock : clock.Monotonic) (hsafe : w.Safe)
    (hnested : (w.timeline clock).WellNested) (hstep : w.step clock e = some w') :
    Relation.ReflTransGen Timeline.Step (w.timeline clock) (w'.timeline clock) := by
  cases transition_of_step hstep with
  | rinit env hidle => exact timeline_rinit hclock hsafe hidle env
  | enter call _ => exact timeline_enter hclock call
  | leave readPos hstack => exact timeline_leave hclock hsafe hnested hstack readPos
  | bailout _ =>
      have hrest : (w.abandon.due.map fun s => s.startNs.toNat).Sublist
          (w.timeline clock).opened :=
        (List.sublist_append_right w.openSpans _).map _
      exact .single (.abandons hrest)
  | iniSet change => cases change <;> exact .refl
  | rshutdown readPos _ => exact timeline_rshutdown hclock hsafe hnested readPos

lemma wellNested_of_reachable (hclock : clock.Monotonic) {table : List LumbreWlStaticEntry}
    (h : (machine clock table).Reachable w) : (w.timeline clock).WellNested := by
  induction h with
  | start hstart =>
      obtain ⟨settings, g, hg, rfl⟩ := hstart
      obtain ⟨whitelist, _, rfl⟩ := Option.map_eq_some_iff.mp hg
      exact Timeline.wellNested_restart _
  | step hreach hstep ih =>
      exact ih.steps (timeline_steps hclock (safe_of_reachable hreach) ih hstep)

end Worker

/-! ## Parents -/

namespace RequestView

variable {v v' : RequestView}

/-- A span is numbered behind its parent. -/
lemma Ledger.parent_lt (h : v.Ledger) (hlt : v.started.length < 2 ^ 64) {s : LumbreSpan.Identity}
    (hs : s ∈ v.started) : s.parentId.toNat < s.spanId.toNat := by
  obtain ⟨i, hi⟩ := List.mem_iff_getElem?.mp hs
  rw [h.toNat_spanId hlt hi]
  rcases h.parents i s hi with ⟨_, hroot⟩ | ⟨j, hj, p, hp, hparent⟩
  · rw [hroot]
    exact Nat.succ_pos i
  · rw [hparent, h.toNat_spanId hlt hp]
    omega

lemma Ledger.spanId_bounds (h : v.Ledger) (hlt : v.started.length < 2 ^ 64)
    {s : LumbreSpan.Identity} (hs : s ∈ v.started) :
    0 < s.spanId.toNat ∧ s.spanId.toNat ≤ v.started.length := by
  obtain ⟨i, hi⟩ := List.mem_iff_getElem?.mp hs
  have hbound := (List.getElem?_eq_some_iff.mp hi).1
  rw [h.toNat_spanId hlt hi]
  omega

/-- **No span is started in a call that has been finished.** -/
structure Settled (v : RequestView) : Prop where
  /-- The innermost call is the one started last. -/
  stack : v.openSpans.Pairwise fun s t => t.spanId.toNat < s.spanId.toNat
  finished : v.finished.Pairwise fun r s => s.parentId ≠ r.spanId
  current : v.ctx.active ≠ 0 → ∀ r ∈ v.finished, v.ctx.currentParentId ≠ r.spanId
  openSpans : ∀ r ∈ v.finished, ∀ s ∈ v.openSpans, s.parentId ≠ r.spanId

lemma settled_of_empty {v : RequestView} (hopen : v.openSpans = []) (hfinished : v.finished = []) :
    v.Settled where
  stack := hopen ▸ .nil
  finished := hfinished ▸ .nil
  current := fun _ _ hr => absurd (hfinished ▸ hr) List.not_mem_nil
  openSpans := fun _ hr => absurd (hfinished ▸ hr) List.not_mem_nil

/-- A call is entered: its id is new. -/
lemma Settled.starts (h : v.Settled) (hledger : v.Ledger) (hactive : v.ctx.active ≠ 0)
    (hlt : v.started.length + 1 < 2 ^ 64) (type : LumbreSpanTypeT) (startNs : UInt64) :
    Settled
      { v with
        ctx := v.ctx.descend
        openSpans := v.ctx.nextIdentity type startNs :: v.openSpans
        started := v.started ++ [v.ctx.nextIdentity type startNs] } := by
  have hnext : v.ctx.spanCounter.toNat = v.started.length + 1 := by
    rw [(hledger.live hactive).next, toNat_counter, Nat.mod_eq_of_lt hlt]
  have honce := hledger.once.subset
  refine ⟨List.pairwise_cons.mpr ⟨?_, h.stack⟩, h.finished, ?_, ?_⟩
  · intro s hs
    have hstarted := honce (List.mem_append_left _ (List.mem_append_right _ hs))
    have hid := (hledger.spanId_bounds (by omega) hstarted).2
    change s.spanId.toNat < v.ctx.spanCounter.toNat
    omega
  · intro _ r hr
    have hstarted := honce (List.mem_append_left _ (List.mem_append_left _ hr))
    have hid := (hledger.spanId_bounds (by omega) hstarted).2
    change v.ctx.spanCounter ≠ r.spanId
    intro heq
    rw [heq] at hnext
    omega
  · intro r hr s hs
    rcases List.mem_cons.mp hs with rfl | hs
    · exact h.current hactive r hr
    · exact h.openSpans r hr s hs

/-- The innermost call is left: the calls around it have been started in calls before it. -/
lemma Settled.finishes (h : v.Settled) (hledger : v.Ledger) (hlt : v.started.length < 2 ^ 64)
    {span : LumbreSpan.Identity} {rest : List LumbreSpan.Identity}
    (hopen : v.openSpans = span :: rest) :
    Settled
      { v with
        ctx.currentParentId := span.parentId
        openSpans := rest
        finished := v.finished ++ [span] } := by
  have hstack := h.stack
  rw [hopen, List.pairwise_cons] at hstack
  have hspan : span ∈ v.openSpans := hopen ▸ List.mem_cons_self
  have hrest : ∀ s ∈ rest, s ∈ v.openSpans := fun s hs => hopen ▸ List.mem_cons_of_mem span hs
  have hstarted : ∀ s ∈ v.openSpans, s ∈ v.started := fun s hs =>
    hledger.once.subset (List.mem_append_left _ (List.mem_append_right _ hs))
  have hself := hledger.parent_lt hlt (hstarted span hspan)
  refine ⟨hstack.2, ?_, ?_, ?_⟩
  · rw [List.pairwise_append]
    refine ⟨h.finished, List.pairwise_singleton _ _, ?_⟩
    intro r hr s hs
    rw [List.mem_singleton.mp hs]
    exact h.openSpans r hr span hspan
  · intro _ r hr
    rcases List.mem_append.mp hr with hr | hr
    · exact h.openSpans r hr span hspan
    · rw [List.mem_singleton.mp hr]
      intro heq
      rw [show span.parentId = span.spanId from heq] at hself
      exact lt_irrefl _ hself
  · intro r hr s hs
    rcases List.mem_append.mp hr with hr | hr
    · exact h.openSpans r hr s (hrest s hs)
    · rw [List.mem_singleton.mp hr]
      have hparent := hledger.parent_lt hlt (hstarted s (hrest s hs))
      have hbelow := hstack.1 s hs
      intro heq
      rw [heq] at hparent
      omega

/-- The root span has no parent. -/
lemma Settled.ends (h : v.Settled) (hledger : v.Ledger) (hlt : v.started.length < 2 ^ 64)
    (hactive : v.ctx.active ≠ 0) :
    Settled
      { v with
        ctx := lumbreContextReset { v.ctx with currentParentId := v.rootSpan.parentId }
        openSpans := []
        finished := v.finished ++ [v.rootSpan] } := by
  refine ⟨.nil, ?_, fun hne => absurd rfl hne, fun _ _ s hs => absurd hs List.not_mem_nil⟩
  rw [List.pairwise_append]
  refine ⟨h.finished, List.pairwise_singleton _ _, ?_⟩
  intro r hr s hs
  have hstarted := hledger.once.subset (List.mem_append_left _ (List.mem_append_left _ hr))
  have hid := (hledger.spanId_bounds hlt hstarted).1
  rw [List.mem_singleton.mp hs, (hledger.live hactive).rootSpan.2.2]
  intro heq
  rw [← heq] at hid
  exact absurd hid (lt_irrefl 0)

/-- **Every step keeps it**, while the counter does not wrap. -/
theorem Settled.step (h : v.started.length < 2 ^ 64 → v.Settled) (hledger : v.Ledger)
    (hstep : v.Step v') : v'.started.length < 2 ^ 64 → v'.Settled := by
  intro hlt
  cases hstep with
  | untraced _ _ => exact settled_of_empty rfl rfl
  | begins _ _ _ _ => exact settled_of_empty rfl rfl
  | skips => exact h hlt
  | abandons =>
      obtain ⟨_, hfinished, hcurrent, _⟩ := h hlt
      exact ⟨.nil, hfinished, hcurrent, fun _ _ s hs => absurd hs List.not_mem_nil⟩
  | starts hactive _ startNs =>
      rw [List.length_append, List.length_singleton] at hlt
      exact (h (by omega)).starts hledger hactive hlt _ startNs
  | finishes hopen _ => exact (h hlt).finishes hledger hlt hopen
  | ends hactive => exact (h hlt).ends hledger hlt hactive

end RequestView

namespace Worker

variable {clock : Clock} {w : Worker}

lemma settled_of_reachable (h : (machine clock lumbreWlStaticTable).Reachable w) :
    w.view.started.length < 2 ^ 64 → w.view.Settled := by
  induction h with
  | start hstart =>
      obtain ⟨settings, g, hg, rfl⟩ := hstart
      obtain ⟨whitelist, _, rfl⟩ := Option.map_eq_some_iff.mp hg
      exact fun _ => RequestView.settled_of_empty rfl rfl
  | step hreach hstep ih =>
      exact RequestView.Settled.step ih (ledger_of_reachable hreach)
        (view_step (safe_of_reachable hreach) (whitelist_of_reachable hreach) hstep)

/-- A parent starts before its child. -/
lemma startNs_le_of_parent (hnested : (w.timeline clock).WellNested) (hledger : w.view.Ledger)
    (hlt : w.view.started.length < 2 ^ 64) {r s : LumbreSpan.Identity} (hr : r ∈ w.view.started)
    (hs : s ∈ w.view.started) (hparent : s.parentId = r.spanId) :
    r.startNs.toNat ≤ s.startNs.toNat := by
  obtain ⟨i, hi⟩ := List.mem_iff_getElem?.mp hs
  obtain ⟨j, hj⟩ := List.mem_iff_getElem?.mp hr
  have hid := hledger.parent_lt hlt hs
  rw [hparent, hledger.toNat_spanId hlt hi, hledger.toNat_spanId hlt hj] at hid
  have hstarts : (w.timeline clock).starts = w.view.started.map fun s => s.startNs.toNat := by
    rw [view, List.map_map]
    rfl
  have horder := hnested.starts
  rw [hstarts, List.pairwise_map, List.pairwise_iff_getElem] at horder
  obtain ⟨hilt, rfl⟩ := List.getElem?_eq_some_iff.mp hi
  obtain ⟨hjlt, rfl⟩ := List.getElem?_eq_some_iff.mp hj
  exact horder j i hjlt hilt (by omega)

/-- **The spans of a request never cross on the clock.** In every state of every run of the shipped
module with a clock that does not go back, bailouts included, in which PHP leaves the hook it entered
last, as it does without Fibers: of two finished spans, the one finished first is over before the
other starts, or lies inside it; and while the ids do not wrap, a finished span lies inside its
parent, once that is finished too. -/
theorem spans_nest (hclock : clock.Monotonic)
    (h : (machine clock lumbreWlStaticTable).Reachable w) :
    w.proc.finished.Pairwise (fun r s => Nests r.interval s.interval) ∧
      (w.proc.started.length < 2 ^ 64 →
        ∀ r ∈ w.proc.finished, ∀ s ∈ w.proc.finished, s.span.parentId = r.span.spanId →
          LiesIn s.interval r.interval) := by
  have hnested := wellNested_of_reachable hclock h
  have hnests : w.proc.finished.Pairwise fun r s => Nests r.interval s.interval :=
    List.pairwise_map.mp hnested.closed
  refine ⟨hnests, ?_⟩
  intro hlt r hr s hs hparent
  have hledger := ledger_of_reachable h
  have hview : w.view.started.length < 2 ^ 64 := by rwa [view, List.length_map]
  have hsettled : w.proc.finished.Pairwise fun r s => s.span.parentId ≠ r.span.spanId :=
    List.pairwise_map.mp (settled_of_reachable h hview).finished
  have hstarted : ∀ t ∈ w.proc.finished, t.span.identity ∈ w.view.started := fun t ht =>
    hledger.once.subset (List.mem_append_left _ (List.mem_append_left _ (List.mem_map_of_mem ht)))
  have hstart : r.interval.1 ≤ s.interval.1 :=
    startNs_le_of_parent hnested hledger hview (hstarted r hr) (hstarted s hs) hparent
  obtain ⟨i, hi, rfl⟩ := List.mem_iff_getElem.mp hr
  obtain ⟨j, hj, rfl⟩ := List.mem_iff_getElem.mp hs
  rcases Nat.lt_trichotomy i j with hij | rfl | hij
  · -- the parent would have been finished before its child
    exact absurd hparent (List.pairwise_iff_getElem.mp hsettled i j hi hj hij)
  · exact ⟨le_rfl, le_rfl⟩
  · exact (List.pairwise_iff_getElem.mp hnests j i hj hi hij).liesIn hstart (Nat.le_add_right _ _)

/-- A call abandoned by a fatal error, and a call behind it. -/
theorem spans_nest_bailout :
    ∃ w, (machine (fun t => UInt64.ofNat (min t 100)) lumbreWlStaticTable).run shipped
        [.rinit plainRequest, .enter (functionCall "fopen"), .bailout,
          .enter (functionCall "fopen"), .leave 0, .rshutdown 0] = some w ∧
      w.proc.finished.map FinishResult.interval = [(2, 3), (0, 4)] ∧
      w.proc.finished.Pairwise fun r s => Nests r.interval s.interval := by
  have hrun : ((machine (fun t => UInt64.ofNat (min t 100)) lumbreWlStaticTable).run shipped
      [.rinit plainRequest, .enter (functionCall "fopen"), .bailout,
        .enter (functionCall "fopen"), .leave 0, .rshutdown 0]).map
          (fun w => w.proc.finished.map FinishResult.interval) = some [(2, 3), (0, 4)] := by
    decide +kernel
  obtain ⟨w, hrun, hintervals⟩ := Option.map_eq_some_iff.mp hrun
  obtain ⟨hnests, _⟩ := spans_nest Clock.monotonic_counting
    ((Machine.Reachable.start start_shipped).run hrun)
  exact ⟨w, hrun, hintervals, hnests⟩

end Worker

end LumbreExt
