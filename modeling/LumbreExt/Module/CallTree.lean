import LumbreExt.Module.Calls

/-!
# The implicit stack reproduces the call tree

* `Replay.recorded`, `Replay.ring` — what a replay adds to the records of the request: the starts in
  preorder, the finishes in postorder; and the finishes are a run of calls on the worker's ring.
* `Nested` — what holds of the forest of a replay: the ids count up in preorder, every span names the
  call around it, and every call restores the context it was entered in. `Replay.nested` is the
  induction.
* `CallTree` — the same of a whole request, whose tree has the root span on top.
* `Worker.request_call_tree` — every traced request of every run has a `CallTree`.
-/

namespace LumbreExt

open Lib

/-! ## The records -/

namespace Replay

variable {clock : Clock} {P : IniChange → Prop} {p p' : Process} {f : Forest SpanRecord}

/-- The starts are recorded in preorder, the finishes in postorder. -/
lemma recorded (h : Replay clock P p f p') :
    p'.started = p.started ++ f.preorder.map (fun s => s.span) ∧
      p'.finished = p.finished ++ f.postorder.map (fun s => s.finish) := by
  induction h with
  | nil p => exact ⟨(List.append_nil _).symm, (List.append_nil _).symm⟩
  | iniSet change hchange hrest ih => cases change <;> exact ih
  | append hinner hrest ihinner ihrest =>
      obtain ⟨hstarted₁, hfinished₁⟩ := ihinner
      obtain ⟨hstarted₂, hfinished₂⟩ := ihrest
      constructor
      · rw [hstarted₂, hstarted₁, Forest.preorder_append, List.map_append, List.append_assoc]
      · rw [hfinished₂, hfinished₁, Forest.postorder_append, List.map_append, List.append_assoc]
  | node htype hspan hinner hfinish hrest ihinner ihrest =>
      obtain ⟨hstarted₁, hfinished₁⟩ := ihinner
      obtain ⟨hstarted₂, hfinished₂⟩ := ihrest
      constructor
      · rw [hstarted₂, Process.afterFinish]
        dsimp only
        rw [hstarted₁]
        simp [Process.afterStart]
      · rw [hfinished₂, Process.afterFinish]
        dsimp only
        rw [hfinished₁]
        simp [Process.afterStart]

end Replay

lemma runFinishes_append (rb : LumbreRingbuf) (cs ds : List FinishCall) :
    runFinishes rb (cs ++ ds) = runFinishes rb cs ++ runFinishes (ringAfter rb cs) ds := by
  induction cs generalizing rb with
  | nil => rfl
  | cons c cs ih => exact congrArg (c.result rb :: ·) (ih (c.result rb).rb)

lemma ringAfter_append (rb : LumbreRingbuf) (cs ds : List FinishCall) :
    ringAfter rb (cs ++ ds) = ringAfter (ringAfter rb cs) ds := by
  induction cs generalizing rb with
  | nil => rfl
  | cons c cs ih => exact ih (c.result rb).rb

/-- The finishes `rs` are a run of calls that leads from the ring of one worker to that of another. -/
def FinishRun (p : Process) (rs : List FinishResult) (p' : Process) : Prop :=
  ∀ rb, p.g.ringbuf = some rb →
    ∃ cs, rs = runFinishes rb cs ∧ p'.g.ringbuf = some (ringAfter rb cs)

namespace FinishRun

variable {p p₁ p₂ : Process} {rs ts : List FinishResult}

lemma trans (h : FinishRun p rs p₁) (h' : FinishRun p₁ ts p₂) : FinishRun p (rs ++ ts) p₂ := by
  intro rb hrb
  obtain ⟨cs, hrs, hring⟩ := h rb hrb
  obtain ⟨ds, hts, hring'⟩ := h' _ hring
  refine ⟨cs ++ ds, ?_, ?_⟩
  · rw [runFinishes_append, hrs, hts]
  · rw [ringAfter_append, hring']

/-- One finish. -/
lemma single {clock : Clock} {span : LumbreSpan} {minDurationNs : UInt64} {r : FinishResult}
    (h : p.Finished clock span minDurationNs r) : FinishRun p [r] (p.afterFinish r) := by
  intro rb hrb
  obtain ⟨rb', c, hrb', rfl⟩ := h.call
  obtain rfl : rb' = rb := Option.some_inj.mp (hrb'.symm.trans hrb)
  exact ⟨[c], rfl, rfl⟩

end FinishRun

/-- The finishes of a replay, in postorder, are a run of calls on the worker's ring. -/
lemma Replay.ring {clock : Clock} {P : IniChange → Prop} {p p' : Process} {f : Forest SpanRecord}
    (h : Replay clock P p f p') : FinishRun p (f.postorder.map fun s => s.finish) p' := by
  induction h with
  | nil p => exact fun rb hrb => ⟨[], rfl, hrb⟩
  | iniSet change hchange hrest ih => cases change <;> exact ih
  | append hinner hrest ihinner ihrest =>
      rw [Forest.postorder_append, List.map_append]
      exact ihinner.trans ihrest
  | node htype hspan hinner hfinish hrest ihinner ihrest =>
      rw [Forest.postorder_node, List.map_append, List.map_cons]
      have hstart : FinishRun _ _ _ := fun rb hrb => ihinner rb hrb
      exact hstart.trans ((FinishRun.single hfinish).trans ihrest)

/-! ## Ids and parents -/

/-- The context after `n` more spans have come and gone. -/
def LumbreContext.advance (ctx : LumbreContext) (n : ℕ) : LumbreContext :=
  { ctx with spanCounter := ctx.spanCounter + UInt64.ofNat n }

/-- The call restores the parent it was entered with, and the id of the root span stays. -/
structure SpanRecord.Restores (rootSpanId : UInt64) (s : SpanRecord) : Prop where
  parent : s.finish.ctx.currentParentId = s.entered.currentParentId
  rootEntered : s.entered.rootSpanId = rootSpanId
  rootFinished : s.finish.ctx.rootSpanId = rootSpanId

/-- The forest of the calls made in a context. -/
structure Nested (ctx : LumbreContext) (f : Forest SpanRecord) (ctx' : LumbreContext) : Prop where
  behind : ctx' = ctx.advance f.size
  ids : f.preorder.map (fun s => s.span.spanId.toNat) = List.range' ctx.spanCounter.toNat f.size
  parented : f.Parented (fun s => s.span.spanId) (fun s => s.span.parentId) ctx.currentParentId
  restores : ∀ s ∈ f.preorder, s.Restores ctx.rootSpanId

/-- Room for the ids of a forest: none of them is zero, and none wraps. -/
def Room (ctx : LumbreContext) (n : ℕ) : Prop :=
  0 < ctx.spanCounter.toNat ∧ ctx.spanCounter.toNat + n < 2 ^ 64

variable {ctx ctx₁ ctx₂ : LumbreContext} {f g : Forest SpanRecord}

lemma LumbreContext.advance_zero (ctx : LumbreContext) : ctx.advance 0 = ctx :=
  LumbreContext.ext rfl rfl rfl (UInt64.add_zero _) rfl rfl

lemma LumbreContext.advance_advance (ctx : LumbreContext) (m n : ℕ) :
    (ctx.advance m).advance n = ctx.advance (m + n) := by
  unfold advance
  rw [UInt64.ofNat_add, ← UInt64.add_assoc]

lemma Room.toNat_advance {m : ℕ} (h : Room ctx m) :
    (ctx.advance m).spanCounter.toNat = ctx.spanCounter.toNat + m := by
  have hlt := h.2
  unfold LumbreContext.advance
  dsimp only
  rw [UInt64.toNat_add, toNat_counter]
  omega

lemma Room.left {m n : ℕ} (h : Room ctx (m + n)) : Room ctx m := ⟨h.1, by have := h.2; omega⟩

lemma Room.advance {m n : ℕ} (h : Room ctx (m + n)) : Room (ctx.advance m) n := by
  have hlt := h.2
  have hcounter := h.left.toNat_advance
  exact ⟨by have := h.1; omega, by omega⟩

/-- Calls one after the other. -/
lemma Nested.append (hroom : Room ctx (f.size + g.size)) (h : Nested ctx f ctx₁)
    (h' : Nested ctx₁ g ctx₂) : Nested ctx (f.append g) ctx₂ := by
  obtain rfl := h.behind
  refine ⟨?_, ?_, ?_, ?_⟩
  · rw [h'.behind, LumbreContext.advance_advance, Forest.size_append]
  · rw [Forest.preorder_append, List.map_append, h.ids, h'.ids, hroom.left.toNat_advance,
      List.range'_append_1, Forest.size_append]
  · exact Forest.parented_append.mpr ⟨h.parented, h'.parented⟩
  · intro s hs
    rw [Forest.preorder_append] at hs
    exact (List.mem_append.mp hs).elim (h.restores s) (h'.restores s)

/-- Below the root span, the context of a call differs from the one around it in the parent only. -/
lemma LumbreContext.descend_eq (hparent : ctx.currentParentId ≠ 0) :
    ctx.descend = { ctx.advance 1 with currentParentId := ctx.spanCounter } := by
  unfold descend advance
  rw [if_neg hparent]
  rfl

lemma Room.descend {n : ℕ} (hparent : ctx.currentParentId ≠ 0) (h : Room ctx (n + 1)) :
    Room ctx.descend n := by
  rw [Nat.add_comm] at h
  have hadvance := h.advance
  rw [LumbreContext.descend_eq hparent]
  exact hadvance

/-- Behind a call, the context differs from the one in front of it in the counter only. -/
lemma Nested.unwind (hparent : ctx.currentParentId ≠ 0) {span : LumbreSpan}
    (hspan : span.parentId = ctx.currentParentId) (h : Nested ctx.descend f ctx₁) :
    ctx₁.unwind span = ctx.advance (f.size + 1) := by
  rw [h.behind, LumbreContext.descend_eq hparent, Nat.add_comm, ← LumbreContext.advance_advance]
  exact LumbreContext.ext rfl rfl hspan rfl rfl rfl

/-- One call: the calls inside it, its finish, and the calls behind it. -/
lemma Nested.node (hparent : ctx.currentParentId ≠ 0) (hroom : Room ctx (f.size + 1 + g.size))
    {span : LumbreSpan} {type : LumbreSpanTypeT} {clockNs : UInt64} {r : FinishResult}
    (hspan : span.identity = ctx.nextIdentity type clockNs) (h : Nested ctx.descend f ctx₁)
    (hfinish : r.ctx = ctx₁.unwind span) (h' : Nested r.ctx g ctx₂) :
    Nested ctx (.node ⟨ctx, span, r⟩ f g) ctx₂ := by
  have hid : span.spanId = ctx.spanCounter := congrArg LumbreSpan.Identity.spanId hspan
  have hpid : span.parentId = ctx.currentParentId := congrArg LumbreSpan.Identity.parentId hspan
  have hbehind : r.ctx = ctx.advance (f.size + 1) := hfinish.trans (h.unwind hparent hpid)
  have hcounter : ctx.descend.spanCounter.toNat = ctx.spanCounter.toNat + 1 := by
    have hone := hroom.left
    rw [Nat.add_comm] at hone
    exact hone.left.toNat_advance
  refine ⟨?_, ?_, ⟨hpid, ?_, ?_⟩, ?_⟩
  · rw [h'.behind, hbehind, LumbreContext.advance_advance]
    rfl
  · rw [Forest.preorder_node, List.map_cons, List.map_append, h.ids, h'.ids, hbehind,
      hroom.left.toNat_advance, hcounter, hid, Forest.size]
    have hsplit : f.size + 1 + g.size = (f.size + g.size) + 1 := by omega
    have hshift : ctx.spanCounter.toNat + (f.size + 1) = ctx.spanCounter.toNat + 1 + f.size := by
      omega
    rw [hsplit, hshift, List.range'_append_1, List.range'_succ]
  · have hinner := h.parented
    rw [LumbreContext.descend_eq hparent] at hinner
    dsimp only at hinner ⊢
    rwa [hid]
  · have hrest := h'.parented
    rw [hbehind] at hrest
    exact hrest
  · have hroot : ctx.descend.rootSpanId = ctx.rootSpanId := if_neg hparent
    have hsame : r.ctx.rootSpanId = ctx.rootSpanId := by rw [hbehind]; rfl
    intro s hs
    rw [Forest.preorder_node, List.mem_cons, List.mem_append] at hs
    rcases hs with rfl | hs | hs
    · exact ⟨by rw [hbehind]; rfl, rfl, hsame⟩
    · exact hroot ▸ h.restores s hs
    · exact hsame ▸ h'.restores s hs

/-- No id of the forest is zero. -/
lemma Nested.spanId_ne_zero (h : Nested ctx f ctx₁) (hpos : 0 < ctx.spanCounter.toNat)
    {s : SpanRecord} (hs : s ∈ f.preorder) : s.span.spanId ≠ 0 := by
  intro hzero
  have hmem := List.mem_map_of_mem (f := fun s : SpanRecord => s.span.spanId.toNat) hs
  rw [h.ids, List.mem_range'_1, hzero] at hmem
  exact absurd hmem.1 (Nat.not_le.mpr hpos)

/-- **The ids and parents of a replay spell its forest.** -/
theorem Replay.nested {clock : Clock} {P : IniChange → Prop} {p p' : Process}
    (h : Replay clock P p f p') (hparent : p.g.ctx.currentParentId ≠ 0)
    (hroom : Room p.g.ctx f.size) : Nested p.g.ctx f p'.g.ctx := by
  induction h with
  | nil p =>
      exact ⟨(LumbreContext.advance_zero _).symm, rfl, trivial, fun _ hs =>
        absurd hs List.not_mem_nil⟩
  | iniSet change hchange hrest ih => cases change <;> exact ih hparent hroom
  | @append p p₁ p₂ f g hinner hrest ihinner ihrest =>
      rw [Forest.size_append] at hroom
      have hfirst := ihinner hparent hroom.left
      have hnext : p₁.g.ctx.currentParentId ≠ 0 := by
        rw [hfirst.behind]
        exact hparent
      exact hfirst.append hroom (ihrest hnext (hfirst.behind ▸ hroom.advance))
  | @node p p₁ p₂ f g c type span r htype hspan hinner hfinish hrest ihinner ihrest =>
      have hpid : span.parentId = p.g.ctx.currentParentId :=
        congrArg LumbreSpan.Identity.parentId hspan
      have hroom' : Room p.g.ctx (f.size + 1 + g.size) := hroom
      have hinside : (p.afterStart span).g.ctx.currentParentId ≠ 0 := by
        intro hzero
        exact absurd (congrArg UInt64.toNat hzero) (Nat.pos_iff_ne_zero.mp hroom.1)
      have hcalls := ihinner hinside (hroom'.left.descend hparent)
      have hbehind : (p₁.afterFinish r).g.ctx = p.g.ctx.advance (f.size + 1) :=
        hfinish.ctx.trans (hcalls.unwind hparent hpid)
      refine Nested.node hparent hroom' hspan hcalls hfinish.ctx (ihrest ?_ ?_)
      · rw [hbehind]
        exact hparent
      · rw [hbehind]
        exact hroom'.advance

/-! ## Requests -/

/-- The message the ring accepted from a finish. -/
def FinishResult.message (r : FinishResult) : Option (List UInt8) :=
  if r.rc = 0 then r.handed else none

/-- The records of a request with the root span `root` and the traced calls `calls` in it, in the
worker behind the request. -/
structure CallTree (root : SpanRecord) (calls : Forest SpanRecord) (p : Process) : Prop where
  /-- Ids count up from `1` in the order the calls are entered in. -/
  ids : (Forest.node root calls .nil).preorder.map (fun s => s.span.spanId.toNat) =
    List.range' 1 (calls.size + 1)
  /-- The parent of a span is the call around it. -/
  parented : (Forest.node root calls .nil).Parented (fun s => s.span.spanId)
    (fun s => s.span.parentId) 0
  parent_ne_zero : ∀ s ∈ calls.preorder, s.span.parentId ≠ 0
  /-- A call restores the parent it was entered with. -/
  restored : ∀ s ∈ (Forest.node root calls .nil).preorder,
    s.finish.ctx.currentParentId = s.entered.currentParentId
  /-- `root_span_id` is the id of the root span, from its start to the end. -/
  rootSpanId : (∀ s ∈ calls.preorder, s.entered.rootSpanId = root.span.spanId ∧
    s.finish.ctx.rootSpanId = root.span.spanId) ∧ p.g.ctx.rootSpanId = root.span.spanId
  started : p.started = (Forest.node root calls .nil).preorder.map fun s => s.span
  finished : p.finished = (Forest.node root calls .nil).postorder.map fun s => s.finish
  /-- The accepted messages are in postorder, that of the root span is the last. -/
  messages : p.finished.filterMap FinishResult.message =
    (Forest.node root calls .nil).postorder.filterMap fun s => s.finish.message
  /-- The finishes are a run of calls on one ring. -/
  ring : ∃ rb cs, p.finished = runFinishes rb cs ∧ p.g.ringbuf = some (ringAfter rb cs)

lemma Body.allChanges_true (body : Body) : body.AllChanges fun _ => True := by
  induction body with
  | done => trivial
  | iniSet change rest ih => exact ⟨trivial, ih⟩
  | call c inner readPos rest ihinner ihrest => exact ⟨ihinner, ihrest⟩

namespace Request

variable {clock : Clock} {P : IniChange → Prop} {env : RequestEnv} {body : Body}
  {p₀ q p : Process} {root : LumbreSpan} {r : FinishResult} {calls : Forest SpanRecord}

/-- The calls are made in the context of the root span, which has the id `1`. -/
lemma nested (h : Request clock P env body p₀ q p root calls r)
    (hspans : calls.size + 1 < 2 ^ 64 - 1) :
    ∃ fullTrace, Nested ⟨env.traceId, 1, 1, 2, 1, fullTrace⟩ calls p.g.ctx := by
  obtain ⟨_, _, fullTrace, hctx⟩ := h.begun.afterRoot_ctx
  have hroom : Room ⟨env.traceId, 1, 1, 2, 1, fullTrace⟩ calls.size :=
    ⟨show 0 < 2 from Nat.two_pos, show 2 + calls.size < 2 ^ 64 by omega⟩
  have hparent : (q.afterRoot root).g.ctx.currentParentId ≠ 0 := by
    rw [hctx]
    exact show (1 : UInt64) ≠ 0 by decide
  have hspelled := h.replay.nested hparent (hctx ▸ hroom)
  rw [hctx] at hspelled
  exact ⟨fullTrace, hspelled⟩

/-- The root span is started in front of the calls. -/
lemma started (h : Request clock P env body p₀ q p root calls r) :
    (p.afterShutdown r).started =
      (Forest.node ⟨q.g.ctx, root, r⟩ calls .nil).preorder.map fun s => s.span := by
  have hempty : q.started = [] := h.begun.started
  have hroot : (q.afterRoot root).started = [root] := by
    unfold Process.afterRoot Process.afterStart
    dsimp only
    rw [hempty]
    rfl
  have hstarted := h.replay.recorded.1
  rw [hroot] at hstarted
  rw [Forest.preorder_node, List.map_cons, Forest.preorder_nil, List.append_nil]
  exact hstarted

/-- The root span is finished behind the calls. -/
lemma finished (h : Request clock P env body p₀ q p root calls r) :
    (p.afterShutdown r).finished =
      (Forest.node ⟨q.g.ctx, root, r⟩ calls .nil).postorder.map fun s => s.finish := by
  have hempty : (q.afterRoot root).finished = [] := h.begun.finished
  have hfinished := h.replay.recorded.2
  rw [hempty, List.nil_append] at hfinished
  rw [Forest.postorder_node, List.map_append]
  exact congrArg (· ++ [r]) hfinished

/-- All finishes of the request are calls on the ring it starts with. -/
lemma ring (h : Request clock P env body p₀ q p root calls r) :
    ∃ rb cs, (p.afterShutdown r).finished = runFinishes rb cs ∧
      (p.afterShutdown r).g.ringbuf = some (ringAfter rb cs) := by
  obtain ⟨rb, hrb⟩ := Option.isSome_iff_exists.mp h.begun.opened.ring
  obtain ⟨cs, hcs, hring⟩ := (h.replay.ring.trans (FinishRun.single h.finish)) rb hrb
  refine ⟨rb, cs, ?_, hring⟩
  rw [h.finished, Forest.postorder_node, List.map_append]
  exact hcs

/-- **The records of a request are those of its call tree.** -/
theorem callTree (h : Request clock P env body p₀ q p root calls r)
    (hspans : calls.size + 1 < 2 ^ 64 - 1) :
    CallTree ⟨q.g.ctx, root, r⟩ calls (p.afterShutdown r) := by
  obtain ⟨hid, hpid, _⟩ := h.begun.afterRoot_ctx
  obtain ⟨fullTrace, hnested⟩ := h.nested hspans
  have hends : r.ctx.currentParentId = 0 ∧ r.ctx.rootSpanId = 1 := by
    rw [h.finish.ctx, hnested.behind]
    exact ⟨hpid, rfl⟩
  exact {
    ids := by
      rw [Forest.preorder_node, List.map_cons, Forest.preorder_nil, List.append_nil, hnested.ids,
        hid]
      rfl
    parented := by
      refine ⟨hpid, ?_, trivial⟩
      show calls.Parented _ _ root.spanId
      rw [hid]
      exact hnested.parented
    parent_ne_zero := by
      intro s hs hzero
      rcases hnested.parented.parent_mem hs with hone | ⟨t, ht, heq⟩
      · exact absurd (hone.symm.trans hzero) (show (1 : UInt64) ≠ 0 by decide)
      · apply hnested.spanId_ne_zero Nat.two_pos ht
        rw [← heq, hzero]
    restored := by
      intro s hs
      rw [Forest.preorder_node, Forest.preorder_nil, List.append_nil, List.mem_cons] at hs
      rcases hs with rfl | hs
      · obtain ⟨fullTrace', hq⟩ := h.begun.ctx
        rw [hends.1, hq]
      · exact (hnested.restores s hs).parent
    rootSpanId := by
      refine ⟨?_, hends.2.trans hid.symm⟩
      intro s hs
      have hrestores := hnested.restores s hs
      exact ⟨hrestores.rootEntered.trans hid.symm, hrestores.rootFinished.trans hid.symm⟩
    started := h.started
    finished := h.finished
    messages := by rw [h.finished, List.filterMap_map]; rfl
    ring := h.ring }

end Request

namespace Worker

/-- **The implicit span stack reproduces the call tree.** In every run of the worker, for every request
that is traced and every well-nested body of it (whatever the calls, the clock, the outcome of each
finish and the changes of settings), the body runs to its end, and if it starts fewer than `2 ^ 64 - 1`
spans, its records are those of its call tree. -/
theorem request_call_tree {clock : Clock} {table : List LumbreWlStaticEntry} {w : Worker}
    (hreach : (machine clock table).Reachable w) (hidle : w.running = false) (env : RequestEnv)
    (hactive : (w.proc.cleared.phpRinit clock env).g.ctx.active ≠ 0) (body : Body)
    (readPos : UInt64) :
    ∃ p root calls w',
      evalBody clock body (w.proc.cleared.phpRinit clock env) = some (p, calls) ∧
      (machine clock table).run w (.rinit env :: (body.events ++ [.rshutdown readPos])) = some w' ∧
      root.span = p.g.rootSpan ∧
      (calls.size + 1 < 2 ^ 64 - 1 → CallTree root calls w'.proc) := by
  obtain ⟨q, p, root, calls, r, w', hrequest, hrun, hproc⟩ :=
    exists_request hreach hidle env hactive body.allChanges_true readPos
  refine ⟨p, ⟨q.g.ctx, root, r⟩, calls, w', hrequest.eval, hrun, ?_, ?_⟩
  · exact hrequest.replay.rootSpan.symm
  · intro hspans
    rw [hproc]
    exact hrequest.callTree hspans

/-- A query that opens a file, and a call behind it that is not traced, since tracing has been switched
off by then. -/
def queryBody : Body :=
  .call (methodCall "PDO" "query") (.call (functionCall "fopen") .done 0 .done) 0
    (.iniSet (.enabled 0) (.call (functionCall "curl_exec") .done 0 .done))

/-- The first request of the worker, with two traced calls. -/
theorem request_call_tree_query :
    ∃ root calls w', (machine (fun _ => 0) lumbreWlStaticTable).run shipped
        (.rinit plainRequest :: (queryBody.events ++ [.rshutdown 0])) = some w' ∧
      calls.size = 2 ∧ CallTree root calls w'.proc := by
  have hreach : (machine (fun _ => 0) lumbreWlStaticTable).Reachable shipped :=
    .start start_shipped
  obtain ⟨p, root, calls, w', heval, hrun, _, htree⟩ :=
    request_call_tree hreach rfl plainRequest (by decide +kernel) queryBody 0
  have hobserved : (evalBody (fun _ => 0) queryBody
      (shipped.proc.cleared.phpRinit (fun _ => 0) plainRequest)).map (fun o => o.2.size) =
        some 2 := by decide +kernel
  rw [heval, Option.map_some, Option.some.injEq] at hobserved
  have hsize : calls.size = 2 := hobserved
  exact ⟨root, calls, w', hrun, hsize, htree (by rw [hsize]; decide)⟩

end Worker

end LumbreExt
