import LumbreExt.Lib.Rebuild
import LumbreExt.Module.Filter
import LumbreExt.Module.System

/-!
# The call tree, read back from the trace

What a reader of the ring can make of a request: the decoded spans arrive in the order in which the
calls returned, and each names its parent.

* `intField`, `rebuildTrace` — the reader: the ids of a decoded span, and the forest of what has been
  decoded.
* `Worker.rebuilt`, `Worker.acceptedSpans` — what the reader gets of a request, and the spans it has
  been told of.
* `Worker.Told` — with short strings, all that a request finishes reads back.
* `Worker.trace_links` — whatever the ring has refused, the edges read back are those the children
  name.
* `Worker.trace_rebuilds_tree` — the reader gets the call tree of the request, without the branches
  that the duration filter has cut.
-/

namespace LumbreExt

open Lib Lib.MsgPack

/-! ## The reader -/

/-- The integer under a key of a decoded object. -/
def intField (key : List UInt8) : Value → Option ℤ
  | .map entries => entries.findSome? fun
      | (.scalar (.str k), .scalar (.int i)) => if k = key then some i else none
      | _ => none
  | _ => none

/-- The forest of some payloads: each names itself under `sid`, and its parent under `pid`. -/
def rebuildTrace (payloads : List (List UInt8)) : Forest Value :=
  Forest.rebuild (intField (ascii "sid")) (intField (ascii "pid")) (payloads.filterMap decodeAll)

lemma intField_sid (r : FinishResult) :
    intField (ascii "sid") r.spanValue = some (r.span.spanId.toNat : ℤ) := rfl

lemma intField_pid (r : FinishResult) :
    intField (ascii "pid") r.spanValue = some (r.span.parentId.toNat : ℤ) := rfl

/-- The reader decodes the accepted payloads of a log to its accepted spans. -/
lemma FinishResult.filterMap_decodeAll_messages {log : List FinishResult}
    (h : ∀ r ∈ log, r.ReadsBack) :
    (log.filterMap FinishResult.message).filterMap decodeAll =
      (log.filter fun r => r.rc = 0).map FinishResult.spanValue := by
  have hall := congrArg (List.filterMap id) (FinishResult.map_decodeAll_messages h)
  rw [List.filterMap_map, List.filterMap_map] at hall
  rw [← List.filterMap_eq_map]
  exact hall

/-- What the reader rebuilds of the last request. -/
def Worker.rebuilt (w : Worker) : Forest Value :=
  rebuildTrace (w.proc.finished.filterMap FinishResult.message)

/-- The accepted spans of the last request, as they are decoded. -/
def Worker.acceptedSpans (w : Worker) : List Value :=
  (w.proc.finished.filter fun r => r.rc = 0).map FinishResult.spanValue

/-! ## What a request finishes reads back -/

namespace Worker

/-- All that the worker has finished in its request reads back, and all that it will. -/
structure Told (w : Worker) : Prop where
  safe : w.Safe
  sound : w.Sound
  whitelist : w.proc.g.whitelist = builtinWhitelist
  finished : ∀ r ∈ w.proc.finished, r.ReadsBack

variable {clock : Clock} {w w' : Worker} {e : Event} {env : RequestEnv}

lemma Told.step (h : w.Told) (hshort : e.Short) (hstep : w.step clock e = some w') : w'.Told where
  safe := h.safe.step clock hstep
  sound := h.sound.step h.whitelist h.safe hshort hstep
  whitelist := (whitelist_step hstep).trans h.whitelist
  finished := by
    intro r hr
    cases (effect_of_step h.safe hstep).1 with
    | keeps _ hkept =>
        rcases hkept with hkept | ⟨_, hkept⟩
        · exact h.finished r (hkept ▸ hr)
        · rw [hkept] at hr
          exact absurd hr List.not_mem_nil
    | opens _ _ _ hkept =>
        rw [hkept] at hr
        exact absurd hr List.not_mem_nil
    | finishes _ _ _ _ _ _ hfinished =>
        rw [hfinished] at hr
        rcases List.mem_append.mp hr with hold | hnew
        · exact h.finished r hold
        · rw [List.mem_singleton.mp hnew]
          exact readsBack_of_step h.safe h.sound hstep hfinished

/-- The reader decodes the accepted spans. -/
lemma Told.rebuilt_eq (h : w.Told) : w.rebuilt =
    Forest.rebuild (intField (ascii "sid")) (intField (ascii "pid")) w.acceptedSpans := by
  rw [rebuilt, rebuildTrace, FinishResult.filterMap_decodeAll_messages h.finished, acceptedSpans]

/-- A run with short strings. -/
lemma Told.run {table : List LumbreWlStaticEntry} {es : List Event} (h : w.Told)
    (hshort : ∀ e ∈ es, e.Short) (hrun : (machine clock table).run w es = some w') : w'.Told := by
  induction es generalizing w with
  | nil => exact Option.some_inj.mp hrun ▸ h
  | cons e es ih =>
      rw [Machine.run_cons] at hrun
      obtain ⟨w₁, hw₁, hrest⟩ := Option.bind_eq_some_iff.mp hrun
      exact ih (h.step (hshort e List.mem_cons_self) hw₁)
        (fun e' he' => hshort e' (List.mem_cons_of_mem e he')) hrest

/-- A traced request has a root span of its own, whatever the last request has left. -/
lemma told_rinit (hreach : (machine clock lumbreWlStaticTable).Reachable w)
    (hidle : w.running = false) (hactive : (w.proc.cleared.phpRinit clock env).g.ctx.active ≠ 0)
    (hshort : (Event.rinit env).Short) (hstep : w.step clock (.rinit env) = some w') :
    w'.Told := by
  have hsafe := safe_of_reachable hreach
  have hroot : (w.proc.cleared.phpRinit clock env).g.rootSpan.WellFormed := by
    obtain ⟨q, _, hsame, hrinit | ⟨_, hrinit⟩⟩ := w.proc.cleared.phpRinit_cases clock env
    · rw [hrinit, hsame.ctx] at hactive
      exact absurd (hsafe.inactive hidle) hactive
    · rw [hrinit]
      exact wellFormed_startRoot hshort
  refine ⟨hsafe.step clock hstep, ?_, ?_, ?_⟩
  · cases transition_of_step hstep with
    | rinit _ _ => exact ⟨fun s hs => absurd hs List.not_mem_nil, hroot⟩
  · exact (whitelist_step hstep).trans (whitelist_of_reachable hreach)
  · rw [finished_rinit hstep]
    exact fun r hr => absurd hr List.not_mem_nil

end Worker

/-! ## The tree of a request -/

/-- A finish leaves what identifies the span of a call. -/
lemma Replay.identity {clock : Clock} {P : IniChange → Prop} {p p' : Process}
    {f : Forest SpanRecord} (h : Replay clock P p f p') :
    ∀ s ∈ f.preorder, s.finish.span.identity = s.span.identity := by
  induction h with
  | nil p => exact fun s hs => absurd hs List.not_mem_nil
  | iniSet change hchange hrest ih => exact ih
  | append hinner hrest ihinner ihrest =>
      intro s hs
      rw [Forest.preorder_append] at hs
      exact (List.mem_append.mp hs).elim (ihinner s) (ihrest s)
  | node htype hspan hinner hfinish hrest ihinner ihrest =>
      intro s hs
      rw [Forest.preorder_node, List.mem_cons, List.mem_append] at hs
      rcases hs with rfl | hs | hs
      · exact hfinish.identity
      · exact ihinner s hs
      · exact ihrest s hs

namespace Request

variable {clock : Clock} {env : RequestEnv} {body : Body} {p₀ q p : Process} {root : LumbreSpan}
  {calls : Forest SpanRecord} {r : FinishResult}

lemma identity {P : IniChange → Prop} (h : Request clock P env body p₀ q p root calls r) :
    ∀ s ∈ (Forest.node ⟨q.g.ctx, root, r⟩ calls .nil).preorder,
      s.finish.span.identity = s.span.identity := by
  intro s hs
  rw [Forest.preorder_node, Forest.preorder_nil, List.append_nil, List.mem_cons] at hs
  rcases hs with rfl | hs
  · exact h.finish.identity
  · exact h.replay.identity s hs

/-- The root span is never filtered. -/
lemma upClosed_kept (hclock : clock.Monotonic)
    (h : Request clock IniChange.KeepsMinDuration env body p₀ q p root calls r)
    (hwhitelist : (q.afterRoot root).g.whitelist = builtinWhitelist) :
    (Forest.node ⟨q.g.ctx, root, r⟩ calls .nil).UpClosed SpanRecord.Kept := by
  refine ⟨?_, h.replay.kept hclock hwhitelist, trivial⟩
  intro _ hfilter
  obtain ⟨_, _, hne⟩ := h.finish.filtered.mp hfilter
  exact hne (congrArg LumbreSpan.Identity.type h.begun.root)

end Request

instance : DecidablePred SpanRecord.Kept := fun s => inferInstanceAs (Decidable (s.finish.rc ≠ 1))

/-- What the reader decodes of a span. -/
def SpanRecord.value (s : SpanRecord) : Value := s.finish.spanValue

/-- **The decoded spans of a call tree name each other as the calls are nested.** -/
lemma CallTree.named {root : SpanRecord} {calls : Forest SpanRecord} {p : Process}
    (htree : CallTree root calls p)
    (hidentity : ∀ s ∈ (Forest.node root calls .nil).preorder,
      s.finish.span.identity = s.span.identity) :
    (Forest.node root calls .nil).Parented (fun s => intField (ascii "sid") s.value)
        (fun s => intField (ascii "pid") s.value) (some 0) ∧
      ((Forest.node root calls .nil).preorder.map fun s =>
        intField (ascii "sid") s.value).Nodup ∧
      some 0 ∉ (Forest.node root calls .nil).preorder.map fun s =>
        intField (ascii "sid") s.value := by
  have hsid : ∀ s ∈ (Forest.node root calls .nil).preorder,
      intField (ascii "sid") s.value = some (s.span.spanId.toNat : ℤ) := by
    intro s hs
    have hid : s.finish.span.spanId = s.span.spanId :=
      congrArg LumbreSpan.Identity.spanId (hidentity s hs)
    rw [← hid]
    exact intField_sid s.finish
  have hpid : ∀ s ∈ (Forest.node root calls .nil).preorder,
      intField (ascii "pid") s.value = some (s.span.parentId.toNat : ℤ) := by
    intro s hs
    have hid : s.finish.span.parentId = s.span.parentId :=
      congrArg LumbreSpan.Identity.parentId (hidentity s hs)
    rw [← hid]
    exact intField_pid s.finish
  have hnames : ((Forest.node root calls .nil).preorder.map fun s =>
      intField (ascii "sid") s.value) =
        (List.range' 1 (calls.size + 1)).map fun n : ℕ => some (n : ℤ) := by
    rw [← htree.ids, List.map_map]
    exact List.map_congr_left hsid
  refine ⟨htree.parented.comp (fun i : UInt64 => some (i.toNat : ℤ)) hsid hpid, ?_, ?_⟩
  · rw [hnames]
    refine List.Nodup.map ?_ (List.nodup_range' 1)
    exact fun m n heq => Int.ofNat_inj.mp (Option.some_inj.mp heq)
  · rw [hnames]
    intro hzero
    obtain ⟨n, hn, heq⟩ := List.mem_map.mp hzero
    have hpos := (List.mem_range'_1.mp hn).1
    have hnone : n = 0 := Int.ofNat_inj.mp (Option.some_inj.mp heq)
    omega

/-- **The postorder of a call tree, cut by the filter, gives it back to the reader.** -/
lemma CallTree.rebuild {root : SpanRecord} {calls : Forest SpanRecord} {p : Process}
    (htree : CallTree root calls p)
    (hidentity : ∀ s ∈ (Forest.node root calls .nil).preorder,
      s.finish.span.identity = s.span.identity) :
    Forest.rebuild (intField (ascii "sid")) (intField (ascii "pid"))
        (((Forest.node root calls .nil).prune SpanRecord.Kept).map SpanRecord.value).postorder =
      ((Forest.node root calls .nil).prune SpanRecord.Kept).map SpanRecord.value := by
  obtain ⟨hparented, hnodup, hzero⟩ := htree.named hidentity
  have hkept := ((Forest.node root calls .nil).preorder_prune_sublist SpanRecord.Kept).map
    fun s => intField (ascii "sid") s.value
  apply Forest.rebuild_postorder (p := some 0)
  · rw [Forest.parented_map]
    exact hparented.prune
  · rw [Forest.preorder_map, List.map_map]
    exact hkept.nodup hnodup
  · rw [Forest.preorder_map, List.map_map]
    exact fun hmem => hzero (hkept.subset hmem)

/-- **No decoded span comes behind the one it names**, and none names itself. -/
lemma CallTree.late {root : SpanRecord} {calls : Forest SpanRecord} {p : Process}
    (htree : CallTree root calls p)
    (hidentity : ∀ s ∈ (Forest.node root calls .nil).preorder,
      s.finish.span.identity = s.span.identity) {P : SpanRecord → Bool} :
    ((((Forest.node root calls .nil).postorder.filter P).map SpanRecord.value).Pairwise
        fun v v' => intField (ascii "pid") v' ≠ intField (ascii "sid") v) ∧
      ∀ v ∈ ((Forest.node root calls .nil).postorder.filter P).map SpanRecord.value,
        intField (ascii "pid") v ≠ intField (ascii "sid") v := by
  obtain ⟨hparented, hnodup, hzero⟩ := htree.named hidentity
  obtain ⟨hlate, hself⟩ := hparented.postorder_late hnodup hzero
  refine ⟨List.pairwise_map.mpr (hlate.sublist List.filter_sublist), ?_⟩
  intro v hv
  obtain ⟨s, hs, rfl⟩ := List.mem_map.mp hv
  exact hself s (Forest.mem_postorder.mp (List.mem_filter.mp hs).1)

namespace Worker

/-- With short strings, all that a request finishes reads back. -/
lemma told_request {clock : Clock} {w w' : Worker}
    (hreach : (machine clock lumbreWlStaticTable).Reachable w) (hidle : w.running = false)
    {env : RequestEnv} (hactive : (w.proc.cleared.phpRinit clock env).g.ctx.active ≠ 0)
    {body : Body} (hshort : ∀ e ∈ .rinit env :: body.events, e.Short) {readPos : UInt64}
    (hrun : (machine clock lumbreWlStaticTable).run w
      (.rinit env :: (body.events ++ [.rshutdown readPos])) = some w') : w'.Told := by
  rw [Machine.run_cons] at hrun
  obtain ⟨w₁, hw₁, hrest⟩ := Option.bind_eq_some_iff.mp hrun
  refine (told_rinit hreach hidle hactive (hshort _ List.mem_cons_self) hw₁).run ?_ hrest
  intro e he
  rcases List.mem_append.mp he with he | he
  · exact hshort e (List.mem_cons_of_mem _ he)
  · rw [List.mem_singleton.mp he]
    trivial

/-- What the reader rebuilds of a request of which no kept span is lost. -/
lemma rebuilt_request {w' : Worker} {root : SpanRecord} {calls : Forest SpanRecord}
    (htree : CallTree root calls w'.proc)
    (hidentity : ∀ s ∈ (Forest.node root calls .nil).preorder,
      s.finish.span.identity = s.span.identity)
    (hclosed : (Forest.node root calls .nil).UpClosed SpanRecord.Kept) (htold : w'.Told)
    (hroom : ∀ r ∈ w'.proc.finished, r.rc = 0 ∨ r.rc = 1) :
    w'.rebuilt =
      ((Forest.node root calls .nil).prune SpanRecord.Kept).map SpanRecord.value := by
  have haccepted : w'.acceptedSpans =
      (((Forest.node root calls .nil).prune SpanRecord.Kept).map SpanRecord.value).postorder := by
    rw [acceptedSpans, Forest.postorder_map, Forest.postorder_prune hclosed, htree.finished,
      List.filter_map, List.map_map]
    refine congrArg (List.map SpanRecord.value) (List.filter_congr fun s hs => ?_)
    have hmem : s.finish ∈ w'.proc.finished := by
      rw [htree.finished]
      exact List.mem_map_of_mem hs
    rcases hroom s.finish hmem with hrc | hrc <;> simp [SpanRecord.Kept, hrc]
  rw [htold.rebuilt_eq, haccepted]
  exact htree.rebuild hidentity

/-- **The reader of the trace gets the call tree back.** In every run of the shipped module with a clock
that does not go back, for every traced request, with short strings, and every well-nested body of it
that leaves `lumbre.min_duration_ns` alone: the finishes of the request are those of its call tree, the
children before their parent; and if the ring and the buffer had room for all its spans, which are
fewer than `2 ^ 64 - 1`, then decoding the accepted payloads, and hanging each span below the one it
names as its parent, yields that tree with all fields of its spans, without the branches that are
shorter than the minimum duration. -/
theorem trace_rebuilds_tree {clock : Clock} (hclock : clock.Monotonic) {w : Worker}
    (hreach : (machine clock lumbreWlStaticTable).Reachable w) (hidle : w.running = false)
    (env : RequestEnv) (hactive : (w.proc.cleared.phpRinit clock env).g.ctx.active ≠ 0)
    {body : Body} (hfixed : body.AllChanges IniChange.KeepsMinDuration)
    (hshort : ∀ e ∈ .rinit env :: body.events, e.Short) (readPos : UInt64) :
    ∃ p root calls w',
      evalBody clock body (w.proc.cleared.phpRinit clock env) = some (p, calls) ∧
      (machine clock lumbreWlStaticTable).run w
        (.rinit env :: (body.events ++ [.rshutdown readPos])) = some w' ∧
      root.span = p.g.rootSpan ∧
      w'.proc.finished = (Forest.node root calls .nil).postorder.map (fun s => s.finish) ∧
      (calls.size + 1 < 2 ^ 64 - 1 → (∀ r ∈ w'.proc.finished, r.rc = 0 ∨ r.rc = 1) →
        w'.rebuilt =
          ((Forest.node root calls .nil).prune SpanRecord.Kept).map SpanRecord.value) := by
  obtain ⟨q, p, root, calls, r, w', hrequest, hrun, hproc⟩ :=
    exists_request hreach hidle env hactive hfixed readPos
  have hwhitelist : (q.afterRoot root).g.whitelist = builtinWhitelist :=
    hrequest.begun.whitelist.trans (whitelist_of_reachable hreach)
  have hfinished : w'.proc.finished =
      (Forest.node ⟨q.g.ctx, root, r⟩ calls .nil).postorder.map fun s => s.finish := by
    rw [hproc]
    exact hrequest.finished
  refine ⟨p, ⟨q.g.ctx, root, r⟩, calls, w', hrequest.eval, hrun, hrequest.replay.rootSpan.symm,
    hfinished, ?_⟩
  intro hspans hroom
  have htree : CallTree ⟨q.g.ctx, root, r⟩ calls w'.proc := hproc ▸ hrequest.callTree hspans
  have htold := told_request hreach hidle hactive hshort hrun
  exact rebuilt_request htree hrequest.identity (hrequest.upClosed_kept hclock hwhitelist)
    htold hroom

/-- **No span is hung below a wrong one, whatever is lost.** In every run of the shipped module, for
every traced request with short strings and every well-nested body of it, which together start fewer
than `2 ^ 64 - 1` spans, whatever the outcome of each finish: what the reader rebuilds of the accepted
payloads has each accepted span once; every edge of it is one the child names; and a span without a
parent in it is one whose parent has not been accepted. -/
theorem trace_links {clock : Clock} {w : Worker}
    (hreach : (machine clock lumbreWlStaticTable).Reachable w) (hidle : w.running = false)
    (env : RequestEnv) (hactive : (w.proc.cleared.phpRinit clock env).g.ctx.active ≠ 0)
    {body : Body} (hshort : ∀ e ∈ .rinit env :: body.events, e.Short) (readPos : UInt64) :
    ∃ p calls w',
      evalBody clock body (w.proc.cleared.phpRinit clock env) = some (p, calls) ∧
      (machine clock lumbreWlStaticTable).run w
        (.rinit env :: (body.events ++ [.rshutdown readPos])) = some w' ∧
      (calls.size + 1 < 2 ^ 64 - 1 →
        w'.rebuilt.preorder.Perm w'.acceptedSpans ∧
        w'.rebuilt.Linked (intField (ascii "sid")) (intField (ascii "pid")) ∧
        ∀ t ∈ w'.rebuilt.trees, ∀ v ∈ w'.acceptedSpans,
          intField (ascii "pid") t.1 ≠ intField (ascii "sid") v) := by
  obtain ⟨q, p, root, calls, r, w', hrequest, hrun, hproc⟩ :=
    exists_request hreach hidle env hactive body.allChanges_true readPos
  refine ⟨p, calls, w', hrequest.eval, hrun, ?_⟩
  intro hspans
  have htree : CallTree ⟨q.g.ctx, root, r⟩ calls w'.proc := hproc ▸ hrequest.callTree hspans
  have htold := told_request hreach hidle hactive hshort hrun
  have haccepted : w'.acceptedSpans =
      ((Forest.node ⟨q.g.ctx, root, r⟩ calls .nil).postorder.filter
        fun s => s.finish.rc = 0).map SpanRecord.value := by
    rw [acceptedSpans, htree.finished, List.filter_map, List.map_map]
    rfl
  obtain ⟨hlate, hself⟩ := htree.late hrequest.identity (P := fun s => s.finish.rc = 0)
  rw [htold.rebuilt_eq, haccepted]
  exact ⟨Forest.rebuild_perm _, Forest.rebuild_linked _, Forest.rebuild_roots hlate hself⟩

/-- A worker with a ring of 128 bytes. -/
def smallRing : Worker :=
  fresh (freshGlobals { iniDefaults with bufferSize := 128 } builtinWhitelist)

lemma start_smallRing : Start lumbreWlStaticTable smallRing :=
  ⟨{ iniDefaults with bufferSize := 128 }, _, by rw [phpGinit, lumbreWhitelistInit_builtin]; rfl,
    rfl⟩

lemma queryBody_short : ∀ e ∈ queryBody.events, e.Short := by
  have hquery : (methodCall "PDO" "query").Short :=
    ⟨⟨by decide, by decide, by decide⟩, by decide⟩
  have hfopen : (functionCall "fopen").Short := ⟨⟨by decide, by decide, by decide⟩, by decide⟩
  have hcurl : (functionCall "curl_exec").Short := ⟨⟨by decide, by decide, by decide⟩, by decide⟩
  simp [queryBody, Body.events, Event.Short, hquery, hfopen, hcurl]

/-- The ring has no room for the span of the request: the query is read back without its parent, and
the file below the query. -/
theorem trace_links_small_ring :
    ∃ w', (machine (fun _ => 0) lumbreWlStaticTable).run smallRing
        (.rinit plainRequest :: (queryBody.events ++ [.rshutdown 0])) = some w' ∧
      w'.proc.finished.map (fun r => r.rc) = [0, 0, -1] ∧
      w'.rebuilt.preorder.Perm w'.acceptedSpans := by
  have hreach : (machine (fun _ => 0) lumbreWlStaticTable).Reachable smallRing :=
    .start start_smallRing
  obtain ⟨p, calls, w', heval, hrun, hlinks⟩ := trace_links hreach rfl plainRequest
    (by decide +kernel) (List.forall_mem_cons.mpr ⟨⟨by decide, by decide⟩, queryBody_short⟩) 0
  have hsize : (evalBody (fun _ => 0) queryBody (smallRing.proc.cleared.phpRinit (fun _ => 0)
      plainRequest)).map (fun o => o.2.size) = some 2 := by
    decide +kernel
  have hrc : ((machine (fun _ => 0) lumbreWlStaticTable).run smallRing (.rinit plainRequest ::
      (queryBody.events ++ [.rshutdown 0]))).map (fun w => w.proc.finished.map fun r => r.rc) =
        some [0, 0, -1] := by
    decide +kernel
  rw [heval, Option.map_some, Option.some_inj] at hsize
  rw [hrun, Option.map_some, Option.some_inj] at hrc
  exact ⟨w', hrun, hrc, (hlinks (by rw [show calls.size = 2 from hsize]; decide)).1⟩

/-- A query that opens a file, with a minimum duration that only the query reaches: two spans are
accepted, and the branch of the file is cut. -/
theorem trace_rebuilds_tree_query :
    ∃ root calls w', (machine (fun t => UInt64.ofNat (min t 100)) lumbreWlStaticTable).run shipped
        (.iniSet (.minDurationNs 2) :: .rinit plainRequest :: (queryBody.events ++ [.rshutdown 0])) =
          some w' ∧
      w'.proc.finished.map (fun r => r.rc) = [1, 0, 0] ∧
      w'.proc.finished = (Forest.node root calls .nil).postorder.map (fun s => s.finish) ∧
      w'.rebuilt =
        ((Forest.node root calls .nil).prune SpanRecord.Kept).map SpanRecord.value := by
  have hstep : (machine (fun t => UInt64.ofNat (min t 100)) lumbreWlStaticTable).step shipped
      (.iniSet (.minDurationNs 2)) = some (shipped.iniSet (.minDurationNs 2)) := rfl
  have hfixed : queryBody.AllChanges IniChange.KeepsMinDuration :=
    ⟨⟨trivial, trivial⟩, trivial, trivial, trivial⟩
  obtain ⟨p, root, calls, w', heval, hrun, _, hfinished, htree⟩ :=
    trace_rebuilds_tree Clock.monotonic_counting (.step (.start start_shipped) hstep) rfl plainRequest
      (by decide +kernel) hfixed
      (List.forall_mem_cons.mpr ⟨⟨by decide, by decide⟩, queryBody_short⟩) 0
  have hsize : (evalBody (fun t => UInt64.ofNat (min t 100)) queryBody
      ((shipped.iniSet (.minDurationNs 2)).proc.cleared.phpRinit
        (fun t => UInt64.ofNat (min t 100)) plainRequest)).map (fun o => o.2.size) = some 2 := by
    decide +kernel
  have hrc : ((machine (fun t => UInt64.ofNat (min t 100)) lumbreWlStaticTable).run
      (shipped.iniSet (.minDurationNs 2)) (.rinit plainRequest :: (queryBody.events ++
        [.rshutdown 0]))).map (fun w => w.proc.finished.map fun r => r.rc) = some [1, 0, 0] := by
    decide +kernel
  rw [heval, Option.map_some, Option.some_inj] at hsize
  rw [hrun, Option.map_some, Option.some_inj] at hrc
  refine ⟨root, calls, w', ?_, hrc, hfinished, htree (by rw [show calls.size = 2 from hsize]; decide) ?_⟩
  · rw [Machine.run_cons, hstep, Option.bind_some]
    exact hrun
  · have hkept : ∀ rc ∈ w'.proc.finished.map fun r => r.rc, rc = 0 ∨ rc = 1 := by
      rw [hrc]
      decide
    exact List.forall_mem_map.mp hkept

end Worker

end LumbreExt
