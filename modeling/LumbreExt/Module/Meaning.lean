import LumbreExt.Module.Reconstruct

/-!
# What a trace means

The trace of a request against the request itself, at the level of values.

* `HookCall.selected` — the calls that are to be recorded: those the whitelist lists, and userland
  calls of a request that is traced in full.
* `Body.recorded` — the tree of the recorded calls of a body, from the body alone: no id, no clock and
  no ring occurs in it.
* `Process.Tracing`, `evalBody_recorded` — the module makes a span for each of these calls, nested as
  they are, which says what the call is recorded with.
* `Worker.rebuilt_eq_recorded`, `Worker.trace_spells_request` — so does what the reader of the ring
  rebuilds.
-/

namespace LumbreExt

open Lib Lib.MsgPack

/-! ## What is to be recorded -/

/-- The type of a call and the fields it is recorded with. -/
abbrev CallRecord := LumbreSpanTypeT × List (List UInt8 × Scalar)

/-- The type of the span a call is recorded by; `full` says whether userland calls are. -/
def HookCall.selected (full : Bool) : HookCall → Option LumbreSpanTypeT
  | .internal func _ => func.functionName.bind fun name =>
      (lumbreWlStaticTable.find? fun r => r.key = nameKey (func.scopeName.getD []) name).map
        fun r => r.spanType
  | .ex func _ =>
      if full ∧ (func.bind fun f => f.functionName).isSome then some lumbreSpanFunc else none

/-- The recorded calls of a body that starts while tracing is switched on or off, with queries cut to
`limit`, and whether it is on behind the body. What an unrecorded call encloses moves up to the call
around it. -/
def Body.recorded (full : Bool) (limit : ℕ) : Body → Bool → Bool × Forest CallRecord
  | .done, on => (on, .nil)
  | .iniSet (.enabled value) rest, _ => rest.recorded full limit (value ≠ 0)
  | .iniSet (.minDurationNs _) rest, on => rest.recorded full limit on
  | .call c inner _ rest, on =>
      let calls := inner.recorded full limit on
      let others := rest.recorded full limit calls.1
      match if on then c.selected full else none with
      | none => (others.1, calls.2.append others.2)
      | some type => (others.1, .node (type, c.record limit type) calls.2 others.2)

/-- What the root span of a request says. -/
def RequestEnv.record (env : RequestEnv) : CallRecord :=
  (lumbreSpanHttpIn, [(ascii "uri", .str env.uriAndMethod.1), (ascii "mth", .str env.uriAndMethod.2)])

/-! ## The guards of the hooks -/

/-- **The guards of the hooks select the calls.** -/
lemma spanType_eq_selected {g : LumbreGlobals} (hwhitelist : g.whitelist = builtinWhitelist)
    (hactive : g.ctx.active ≠ 0) {full : Bool}
    (hfull : full = true ↔ g.mode = 1 ∨ g.ctx.fullTrace ≠ 0) (call : HookCall) :
    g.spanType call = if g.enabled ≠ 0 then call.selected full else none := by
  by_cases henabled : g.enabled = 0
  · rw [if_neg (fun h => h henabled)]
    cases call with
    | internal func args => exact if_pos (Or.inl henabled)
    | ex func lineno => exact if_pos (Or.inl henabled)
  rw [if_pos henabled]
  have hguard : ¬ (g.enabled = 0 ∨ g.ctx.active = 0) := fun h => h.elim henabled hactive
  cases call with
  | ex func lineno =>
      unfold LumbreGlobals.spanType LumbreGlobals.executeExType HookCall.selected
      dsimp only
      rw [if_neg hguard]
      by_cases hmode : g.mode ≠ 1 ∧ g.ctx.fullTrace = 0
      · have hoff : ¬ full = true := fun h => (hfull.mp h).elim hmode.1 fun hne => hne hmode.2
        rw [if_pos hmode, if_neg (fun h => hoff h.1)]
      · have hon : full = true := hfull.mpr (by tauto)
        rw [if_neg hmode]
        cases func.bind fun f => f.functionName with
        | none => simp
        | some name => simp [hon]
  | internal func args =>
      unfold LumbreGlobals.spanType LumbreGlobals.executeInternalType HookCall.selected
      dsimp only [lumbreExtractNames]
      rw [if_neg hguard]
      cases hname : func.functionName with
      | none => rfl
      | some name =>
          have hkey : lumbreWlBuildKey (optPtr func.scopeName) (optLen func.scopeName)
              (optPtr (some name)) (optLen (some name)) = nameKey (func.scopeName.getD []) name := by
            have hread := lumbreWlBuildKey_eq_nameKey (optPtr func.scopeName)
              (optLen func.scopeName) (Mem.ofList name) (optLen (some name))
            rw [read_optPtr] at hread
            refine hread.trans (congrArg _ (Mem.load_ofList name))
          rw [hwhitelist, built_builtinWhitelist.match_eq_find (by decide)
            lumbreWlStaticTable_key_ne_nil le_rfl, hkey]
          rw [if_neg (show optPtr (some name) ≠ none from Option.some_ne_none _), Option.bind_some]
          cases lumbreWlStaticTable.find? fun r =>
            r.key = nameKey (func.scopeName.getD []) name with
          | none => rfl
          | some r => rfl

/-! ## The body of a request -/

/-- Tracing is switched on. -/
def Process.on (p : Process) : Bool := p.g.enabled ≠ 0

/-- A worker inside a traced request, with the settings that a body cannot change. -/
structure Process.Tracing (full : Bool) (limit : UInt32) (p : Process) : Prop where
  opened : p.Opened
  active : p.g.ctx.active ≠ 0
  whitelist : p.g.whitelist = builtinWhitelist
  queryLimit : p.g.queryLimit = limit
  full : full = true ↔ p.g.mode = 1 ∨ p.g.ctx.fullTrace ≠ 0

/-- What a finish records of a span, whenever it takes place. -/
def SpanRecord.said (limit : UInt32) (s : SpanRecord) : CallRecord :=
  (s.span.type, (s.span.recorded limit 0).typeFields)

/-- What a finish leaves of the span, unless it filters it. -/
lemma FinishCall.span_result {c : FinishCall} {rb : LumbreRingbuf} (h : (c.result rb).rc ≠ 1) :
    (c.result rb).span = c.span.recorded c.maxQueryLen c.clockNs := by
  unfold result at h ⊢
  rcases lumbreSpanFinish_cases c.span (rb.withReadPos c.readPos) c.mpBuf c.ctx c.minDurationNs
      c.clockNs c.maxQueryLen with ⟨_, hr⟩ | ⟨_, rc, b, _, ⟨_, hr⟩ | ⟨_, hr⟩⟩
  · rw [hr] at h
    exact absurd rfl h
  · rw [hr]
  · rw [hr]

/-- **What a finish leaves of a span is what it says**, unless it filters the span. -/
lemma said_of_spanFinish {clock : Clock} {p p' : Process} {span : LumbreSpan}
    {minDurationNs readPos : UInt64} {r : FinishResult} (ctx : LumbreContext)
    (h : p.spanFinish clock span minDurationNs readPos = some (r, p')) (hkept : r.rc ≠ 1) :
    (r.span.type, r.span.typeFields) = SpanRecord.said p.g.queryLimit ⟨ctx, span, r⟩ := by
  obtain ⟨rb, _, _, rfl⟩ := Process.spanFinish_call h
  rw [FinishCall.span_result hkept]
  rfl

/-- What the finish of a call leaves of its span is what it says. -/
def SpanRecord.Faithful (limit : UInt32) (s : SpanRecord) : Prop :=
  s.finish.rc ≠ 1 → (s.finish.span.type, s.finish.span.typeFields) = s.said limit

namespace Process.Tracing

variable {full : Bool} {limit : UInt32} {p : Process}

lemma iniSet (h : p.Tracing full limit) (change : IniChange) :
    (p.iniSet change).Tracing full limit := by
  cases change <;>
    exact ⟨h.opened.iniSet _, h.active, h.whitelist, h.queryLimit, h.full⟩

lemma afterStart (h : p.Tracing full limit) (span : LumbreSpan) :
    (p.afterStart span).Tracing full limit :=
  ⟨h.opened.afterStart span, h.active, h.whitelist, h.queryLimit, h.full⟩

lemma afterFinish (h : p.Tracing full limit) {clock : Clock} {span : LumbreSpan}
    {minDurationNs : UInt64} {r : FinishResult} (hr : p.Finished clock span minDurationNs r) :
    (p.afterFinish r).Tracing full limit where
  opened := h.opened.afterFinish hr.capacity
  active := by
    have hctx : (p.afterFinish r).g.ctx = p.g.ctx.unwind span := hr.ctx
    rw [hctx]
    exact h.active
  whitelist := h.whitelist
  queryLimit := h.queryLimit
  full := by
    have hctx : (p.afterFinish r).g.ctx = p.g.ctx.unwind span := hr.ctx
    rw [hctx]
    exact h.full

/-- **The module records a body as it is.** -/
theorem evalBody_recorded (clock : Clock) {body : Body} (hshort : ∀ e ∈ body.events, e.Short)
    (h : p.Tracing full limit) :
    ∃ p' f, evalBody clock body p = some (p', f) ∧ p'.Tracing full limit ∧
      (∀ s ∈ f.preorder, s.Faithful limit) ∧
      (p'.on, f.map (SpanRecord.said limit)) = body.recorded full limit.toNat p.on := by
  induction body generalizing p with
  | done => exact ⟨p, .nil, rfl, h, fun s hs => absurd hs List.not_mem_nil, rfl⟩
  | iniSet change rest ih =>
      have hrest : ∀ e ∈ rest.events, e.Short := fun e he => hshort e (List.mem_cons_of_mem _ he)
      obtain ⟨p', f, heval, htracing, hfaithful, hsaid⟩ := ih hrest (h.iniSet change)
      refine ⟨p', f, heval, htracing, hfaithful, hsaid.trans ?_⟩
      cases change <;> rfl
  | call c inner readPos rest ihinner ihrest =>
      have hcall : c.Short := hshort (.enter c) List.mem_cons_self
      have hinner : ∀ e ∈ inner.events, e.Short := fun e he =>
        hshort e (List.mem_cons_of_mem _ (List.mem_append_left _ he))
      have hrest : ∀ e ∈ rest.events, e.Short := fun e he =>
        hshort e (List.mem_cons_of_mem _ (List.mem_append_right _ (List.mem_cons_of_mem _ he)))
      have hselected : (if p.on then c.selected full else none) = p.g.spanType c := by
        rw [spanType_eq_selected h.whitelist h.active h.full]
        simp only [Process.on, decide_eq_true_eq]
      unfold evalBody Body.recorded
      dsimp only
      rw [hselected]
      cases htype : p.g.spanType c with
      | none =>
          have henter : p.enter clock c = (.passThrough, p) := by
            unfold Process.enter
            rw [htype]
          obtain ⟨p₁, f, heval₁, htracing₁, hfaithful₁, hsaid₁⟩ := ihinner hinner h
          obtain ⟨p₂, g, heval₂, htracing₂, hfaithful₂, hsaid₂⟩ := ihrest hrest htracing₁
          refine ⟨p₂, f.append g, ?_, htracing₂, ?_, ?_⟩
          · rw [henter]
            dsimp only
            rw [heval₁, Option.bind_some, heval₂, Option.map_some]
          · intro s hs
            rw [Forest.preorder_append] at hs
            exact (List.mem_append.mp hs).elim (hfaithful₁ s) (hfaithful₂ s)
          · rw [← hsaid₁, ← hsaid₂, Forest.map_append]
      | some type =>
          have henter := Process.enter_eq clock htype
          have htells := tells_payload h.whitelist hcall htype p.g.ctx (clock p.ticks)
          generalize hspan : p.g.payload type (lumbreSpanStart type p.g.ctx (clock p.ticks)).1 c =
            span at henter htells
          have hspanType : span.type = type := by
            rw [← hspan]
            exact congrArg LumbreSpan.Identity.type (p.g.payload_identity type _ c)
          obtain ⟨p₁, f, heval₁, htracing₁, hfaithful₁, hsaid₁⟩ :=
            ihinner hinner (h.afterStart span)
          obtain ⟨r, hr, hfinish⟩ := Process.spanFinish_eq clock htracing₁.opened.ready span
            p₁.g.minDurationNs.toUInt64 readPos
          obtain ⟨p₂, g, heval₂, htracing₂, hfaithful₂, hsaid₂⟩ :=
            ihrest hrest (htracing₁.afterFinish hr)
          refine ⟨p₂, .node ⟨p.g.ctx, span, r⟩ f g, ?_, htracing₂, ?_, ?_⟩
          · rw [henter]
            dsimp only
            rw [heval₁, Option.bind_some, hfinish, Option.bind_some, heval₂, Option.map_some]
          · intro s hs
            rw [Forest.preorder_node, List.mem_cons, List.mem_append] at hs
            rcases hs with rfl | hs | hs
            · intro hkept
              rw [← htracing₁.queryLimit]
              exact said_of_spanFinish p.g.ctx hfinish hkept
            · exact hfaithful₁ s hs
            · exact hfaithful₂ s hs
          · have hcalls : inner.recorded full limit.toNat p.on =
                (p₁.on, f.map (SpanRecord.said limit)) := hsaid₁.symm
            have hothers : rest.recorded full limit.toNat p₁.on =
                (p₂.on, g.map (SpanRecord.said limit)) := hsaid₂.symm
            have hrecord : SpanRecord.said limit ⟨p.g.ctx, span, r⟩ =
                (type, c.record limit.toNat type) := by
              rw [SpanRecord.said, hspanType, ← h.queryLimit, htells.typeFields 0]
            rw [hcalls]
            dsimp only
            rw [hothers, ← hrecord]
            rfl

end Process.Tracing

/-! ## The start of a request -/

/-- The settings that select and cut. -/
structure SameSettings (p q : Process) : Prop where
  mode : q.g.mode = p.g.mode
  triggerHeader : q.g.triggerHeader = p.g.triggerHeader
  queryLimit : q.g.queryLimit = p.g.queryLimit

lemma sameSettings_openRingbuf (p : Process) (env : RequestEnv) :
    SameSettings p (p.openRingbuf env) ∧
      ((p.openRingbuf env).g.enabled = p.g.enabled ∨
        (p.openRingbuf env).g.ringbufInitialized = p.g.ringbufInitialized) := by
  obtain ⟨os', ⟨hopen, _⟩ | ⟨rb, hopen, _⟩⟩ := p.openRingbuf_cases env
  · rw [hopen]
    exact ⟨⟨rfl, rfl, rfl⟩, Or.inr rfl⟩
  · rw [hopen]
    exact ⟨⟨rfl, rfl, rfl⟩, Or.inl rfl⟩

/-- The lazy initialisation switches tracing off when it fails, and changes no other setting. -/
lemma sameSettings_lazyInit (p : Process) (env : RequestEnv) :
    SameSettings p (p.lazyInit env) ∧
      ((p.lazyInit env).g.enabled = p.g.enabled ∨
        (p.lazyInit env).g.ringbufInitialized = p.g.ringbufInitialized) := by
  have halloc : ∀ p q : Process, p.allocStorage env = some q → SameSettings p q ∧
      q.g.enabled = p.g.enabled ∧ q.g.ringbufInitialized = p.g.ringbufInitialized := by
    intro p q hq
    unfold Process.allocStorage at hq
    split at hq <;> cases hq <;> exact ⟨⟨rfl, rfl, rfl⟩, rfl, rfl⟩
  unfold Process.lazyInit
  dsimp only
  split
  · exact ⟨⟨rfl, rfl, rfl⟩, Or.inr rfl⟩
  · rename_i q hq
    obtain ⟨hsame, henabled, hflag⟩ := halloc _ q hq
    obtain ⟨hopen, hor⟩ := sameSettings_openRingbuf { q with
      g.mpBufPtr := q.g.mpStorage
      g.mpBuf.capacity := lumbreMsgpackBufSize
      g.mpBuf.pos := 0 } env
    exact ⟨⟨hopen.mode.trans hsame.mode, hopen.triggerHeader.trans hsame.triggerHeader,
      hopen.queryLimit.trans hsame.queryLimit⟩, hor.imp (fun h => h.trans henabled)
        fun h => h.trans hflag⟩

namespace Process

variable {clock : Clock} {p : Process} {env : RequestEnv}

/-- **RINIT starts a request with the settings of the worker**, or leaves it untraced. -/
lemma phpRinit_traced (hinactive : p.g.ctx.active = 0)
    (hactive : (p.phpRinit clock env).g.ctx.active ≠ 0) :
    ∃ q, p.phpRinit clock env = (q.initContext env).startRoot clock env ∧ SameSettings p q ∧
      q.on = true := by
  unfold phpRinit at hactive ⊢
  by_cases henabled : p.g.enabled = 0
  · rw [if_pos henabled] at hactive
    exact absurd hinactive hactive
  rw [if_neg henabled] at hactive ⊢
  have hon : p.on = true := by simp [on, henabled]
  by_cases hopen : p.g.ringbufInitialized = 0
  · rw [if_pos hopen] at hactive ⊢
    dsimp only at hactive ⊢
    by_cases hfailed : (p.lazyInit env).g.ringbufInitialized = 0
    · rw [if_pos hfailed, (sameRequest_lazyInit p env).ctx] at hactive
      exact absurd hinactive hactive
    · obtain ⟨hsame, hor⟩ := sameSettings_lazyInit p env
      have hstill : (p.lazyInit env).g.enabled = p.g.enabled :=
        hor.resolve_right fun hflag => hfailed (hflag.trans hopen)
      exact ⟨_, if_neg hfailed, hsame, by simp [on, hstill, henabled]⟩
  · rw [if_neg hopen]
    exact ⟨p, if_neg hopen, ⟨rfl, rfl, rfl⟩, hon⟩

/-- The context of a request says whether it carries the trigger header. -/
lemma fullTrace_startRoot (clock : Clock) (q : Process) (env : RequestEnv) :
    ((q.initContext env).startRoot clock env).g.ctx.fullTrace ≠ 0 ↔
      env.triggered q.g.triggerHeader = true := by
  have hctx : ((q.initContext env).startRoot clock env).g.ctx.fullTrace =
      (q.initContext env).g.ctx.fullTrace := by
    obtain ⟨root, _, hroot⟩ := startRoot_eq clock (q.initContext env) env
    rw [hroot]
    rfl
  rw [hctx]
  unfold initContext
  dsimp only
  by_cases htriggered : env.triggered q.g.triggerHeader = true
  · rw [if_pos htriggered]
    exact iff_of_true (show (1 : ℤ) ≠ 0 by decide) htriggered
  · rw [if_neg htriggered]
    exact iff_of_false (fun h => h rfl) htriggered

/-- The root span says what was requested. -/
lemma said_startRoot (hshort : (Event.rinit env).Short) (clock : Clock) (p : Process)
    (limit : UInt32) :
    ((p.startRoot clock env).g.rootSpan.type,
        ((p.startRoot clock env).g.rootSpan.recorded limit 0).typeFields) = env.record := by
  obtain ⟨huri, hmethod⟩ := hshort
  have hfields : ((p.startRoot clock env).g.rootSpan.recorded limit 0).typeFields =
      [(ascii "uri", .str ((strPtr env.uriAndMethod.1).bytes (strLen32 env.uriAndMethod.1))),
        (ascii "mth", .str ((strPtr env.uriAndMethod.2).bytes
          (strLen32 env.uriAndMethod.2)))] := rfl
  rw [hfields, (says_strPtr huri).bytes, (says_strPtr hmethod).bytes]
  rfl

end Process

/-- Whether the worker traces the userland calls of a request. -/
def Worker.tracesFunctions (w : Worker) (env : RequestEnv) : Bool :=
  w.proc.g.mode = 1 || env.triggered w.proc.g.triggerHeader

/-- The calls of a request that are to be recorded. -/
def Worker.recordedCalls (w : Worker) (env : RequestEnv) (body : Body) : Forest CallRecord :=
  (body.recorded (w.tracesFunctions env) w.proc.g.queryLimit.toNat true).2

namespace Worker

variable {clock : Clock} {w : Worker} {env : RequestEnv}

/-- The worker behind the RINIT of a traced request. -/
lemma tracing_phpRinit (hreach : (machine clock lumbreWlStaticTable).Reachable w)
    (hidle : w.running = false)
    (hactive : (w.proc.cleared.phpRinit clock env).g.ctx.active ≠ 0) :
    (w.proc.cleared.phpRinit clock env).Tracing (w.tracesFunctions env) w.proc.g.queryLimit ∧
      (w.proc.cleared.phpRinit clock env).on = true := by
  have hsafe := safe_of_reachable hreach
  have hinactive := hsafe.inactive hidle
  have hopened : (w.proc.cleared.phpRinit clock env).Opened := by
    rcases hsafe.resources.cleared.phpRinit clock (hsafe.idle hinactive).1 env with
      ⟨q, hrinit, _, hsame⟩ | ⟨q, root, hrinit, hbegun⟩
    · rw [hrinit, hsame.ctx] at hactive
      exact absurd hinactive hactive
    · rw [hrinit]
      exact hbegun.opened.afterRoot root
  have hwhitelist : (w.proc.cleared.phpRinit clock env).g.whitelist = builtinWhitelist :=
    (whitelist_phpRinit clock w.proc.cleared env).trans (whitelist_of_reachable hreach)
  obtain ⟨q, hrinit, hsame, hon⟩ := Process.phpRinit_traced (p := w.proc.cleared) hinactive hactive
  have hmode : q.g.mode = w.proc.g.mode := hsame.mode
  have htrigger : q.g.triggerHeader = w.proc.g.triggerHeader := hsame.triggerHeader
  have hfullTrace := Process.fullTrace_startRoot clock q env
  rw [htrigger] at hfullTrace
  refine ⟨⟨hopened, hactive, hwhitelist, ?_, ?_⟩, ?_⟩
  · rw [hrinit]
    exact hsame.queryLimit
  · rw [hrinit, hfullTrace, show ((q.initContext env).startRoot clock env).g.mode = q.g.mode from rfl,
      hmode]
    simp [tracesFunctions]
  · rw [hrinit]
    exact hon

/-- The finish of the root span, in the run of a whole request. -/
lemma finish_root {table : List LumbreWlStaticEntry} {body : Body} {q p : Process}
    {P : IniChange → Prop} {root : LumbreSpan} {calls : Forest SpanRecord} {r : FinishResult}
    {readPos : UInt64} {w' : Worker} (hidle : w.running = false)
    (hrequest : Request clock P env body w.proc q p root calls r) (hopened : p.Opened)
    (hactive : p.g.ctx.active ≠ 0)
    (hrun : (machine clock table).run w (.rinit env :: (body.events ++ [.rshutdown readPos])) =
      some w') (hproc : w'.proc = p.afterShutdown r) :
    p.spanFinish clock root 0 readPos = some (r, p.afterFinish r) := by
  obtain ⟨r', _, hfinish⟩ := Process.spanFinish_eq clock hopened.ready root 0 readPos
  have hroot : p.g.rootSpan = root := hrequest.replay.rootSpan
  have hshutdown : p.phpRshutdown clock readPos = some (p.afterShutdown r') := by
    rw [Process.phpRshutdown, if_neg hactive, hroot, hfinish]
    rfl
  have hbegin : (machine clock table).step w (.rinit env) =
      some (w.beginRequest env (w.proc.cleared.phpRinit clock env)) := by
    unfold machine Worker.step
    simp [hidle]
  have hbody : (machine clock table).run
      (w.beginRequest env (w.proc.cleared.phpRinit clock env)) body.events =
        some { w.beginRequest env (w.proc.cleared.phpRinit clock env) with proc := p } :=
    run_events rfl hrequest.eval
  rw [Machine.run_cons, hbegin, Option.bind_some, Machine.run_append, hbody, Option.bind_some,
    Machine.run_cons] at hrun
  unfold machine Worker.step at hrun
  dsimp only [beginRequest, endRequest, settle] at hrun
  rw [hshutdown] at hrun
  have hsame : p.afterShutdown r' = p.afterShutdown r := by
    rw [← hproc]
    exact congrArg Worker.proc (Option.some_inj.mp hrun)
  have hlast : p.finished ++ [r'] = p.finished ++ [r] := congrArg Process.finished hsame
  obtain rfl := List.cons.inj (List.append_cancel_left hlast) |>.1
  exact hfinish

end Worker

/-! ## What the reader rebuilds -/

/-- The type of a decoded span, and its fields behind the common ones. -/
def valueRecord : Value → Option ℤ × List (Value × Value)
  | .map entries => (intField (ascii "t") (.map entries), entries.drop 6)
  | _ => (none, [])

/-- A record as it is decoded. -/
def decodedRecord (c : CallRecord) : Option ℤ × List (Value × Value) :=
  (some (c.1.toNat : ℤ), c.2.map entry)

lemma valueRecord_spanValue (r : FinishResult) :
    valueRecord r.spanValue = decodedRecord (r.span.type, r.span.typeFields) := rfl

namespace Worker

/-- What the reader rebuilds of a request that is run, with nothing lost. -/
lemma rebuilt_eq_recorded {clock : Clock} {w w' : Worker} {env : RequestEnv} {body : Body}
    {readPos : UInt64} (hreach : (machine clock lumbreWlStaticTable).Reachable w)
    (hidle : w.running = false) (hactive : (w.proc.cleared.phpRinit clock env).g.ctx.active ≠ 0)
    (hshort : ∀ e ∈ .rinit env :: body.events, e.Short)
    (hrun : (machine clock lumbreWlStaticTable).run w
      (.rinit env :: (body.events ++ [.rshutdown readPos])) = some w')
    (hsize : (w.recordedCalls env body).size + 1 < 2 ^ 64 - 1)
    (haccepted : ∀ r ∈ w'.proc.finished, r.rc = 0) :
    w'.rebuilt.map valueRecord =
      (Forest.node env.record (w.recordedCalls env body) .nil).map decodedRecord := by
  obtain ⟨q, p, root, f, r, v, hrequest, hrun', hproc⟩ :=
    exists_request hreach hidle env hactive body.allChanges_true readPos
  obtain rfl := Option.some_inj.mp (hrun'.symm.trans hrun)
  obtain ⟨htracing, hon⟩ := tracing_phpRinit hreach hidle hactive
  have hbody : ∀ e ∈ body.events, e.Short := fun e he => hshort e (List.mem_cons_of_mem _ he)
  -- the run of the body, from both sides
  obtain ⟨p', f', heval, htracing', hfaithful, hsaid⟩ := htracing.evalBody_recorded clock hbody
  obtain ⟨rfl, rfl⟩ := Prod.mk.inj (Option.some_inj.mp (heval.symm.trans hrequest.eval))
  obtain ⟨p'', f'', heval', _, hreplay⟩ :=
    exists_replay clock body.allChanges_true htracing.opened
  obtain ⟨rfl, rfl⟩ := Prod.mk.inj (Option.some_inj.mp (heval'.symm.trans heval))
  have hrecorded : f''.map (SpanRecord.said w.proc.g.queryLimit) = w.recordedCalls env body := by
    rw [hon] at hsaid
    exact congrArg Prod.snd hsaid
  rw [← hrecorded] at hsize ⊢
  rw [Forest.size_map] at hsize
  have htree : CallTree ⟨q.g.ctx, root, r⟩ f'' v.proc := hproc ▸ hrequest.callTree hsize
  have hkept : ∀ s ∈ (Forest.node ⟨q.g.ctx, root, r⟩ f'' .nil).preorder, s.Kept := by
    intro s hs
    have hmem : s.finish ∈ v.proc.finished := by
      rw [htree.finished]
      exact List.mem_map_of_mem (Forest.mem_postorder.mpr hs)
    rw [SpanRecord.Kept, haccepted s.finish hmem]
    decide
  have hroot : valueRecord (SpanRecord.value ⟨q.g.ctx, root, r⟩) = decodedRecord env.record := by
    have hfinish := finish_root hidle hrequest htracing'.opened htracing'.active hrun hproc
    have hsame : root = (w.proc.cleared.phpRinit clock env).g.rootSpan :=
      hrequest.replay.rootSpan.symm.trans hreplay.rootSpan
    obtain ⟨q', hrinit, _, _⟩ := Process.phpRinit_traced (p := w.proc.cleared)
      ((safe_of_reachable hreach).inactive hidle) hactive
    have hrecord := Process.said_startRoot (hshort _ List.mem_cons_self) clock (q'.initContext env)
      p''.g.queryLimit
    rw [← hrinit, ← hsame] at hrecord
    have hspoken := said_of_spanFinish q.g.ctx hfinish (hkept _ List.mem_cons_self)
    exact (valueRecord_spanValue r).trans (congrArg decodedRecord (hspoken.trans hrecord))
  have hcalls : f''.map (fun s => valueRecord s.value) =
      f''.map fun s => decodedRecord (s.said w.proc.g.queryLimit) := by
    refine Forest.map_congr fun s hs => ?_
    have hs' : s ∈ (Forest.node ⟨q.g.ctx, root, r⟩ f'' .nil).preorder :=
      List.mem_cons_of_mem _ (List.mem_append_left _ hs)
    exact (valueRecord_spanValue s.finish).trans
      (congrArg decodedRecord (hfaithful s hs (hkept s hs')))
  rw [rebuilt_request htree hrequest.identity (Forest.upClosed_of_forall hkept)
    (told_request hreach hidle hactive hshort hrun) fun r hr => Or.inl (haccepted r hr),
    Forest.prune_eq_self hkept, Forest.map_map]
  simp only [Forest.map, Forest.map_map, hroot, hcalls]

/-- **The trace spells the request.** In every run of the shipped module, for every traced request and
every well-nested body of it, with short strings: if all its spans are accepted, and they are fewer
than `2 ^ 64 - 1`, then what a reader of the ring rebuilds from the payloads, ids and times aside, is
the tree of the calls that are to be recorded, each with its type and its fields, below the request
itself. -/
theorem trace_spells_request {clock : Clock} {w : Worker}
    (hreach : (machine clock lumbreWlStaticTable).Reachable w) (hidle : w.running = false)
    (env : RequestEnv) (hactive : (w.proc.cleared.phpRinit clock env).g.ctx.active ≠ 0)
    {body : Body} (hshort : ∀ e ∈ .rinit env :: body.events, e.Short) (readPos : UInt64) :
    ∃ w', (machine clock lumbreWlStaticTable).run w
        (.rinit env :: (body.events ++ [.rshutdown readPos])) = some w' ∧
      ((w.recordedCalls env body).size + 1 < 2 ^ 64 - 1 → (∀ r ∈ w'.proc.finished, r.rc = 0) →
        w'.rebuilt.map valueRecord =
          (Forest.node env.record (w.recordedCalls env body) .nil).map decodedRecord) := by
  obtain ⟨_, _, _, _, _, w', _, hrun, _⟩ :=
    exists_request hreach hidle env hactive body.allChanges_true readPos
  exact ⟨w', hrun, rebuilt_eq_recorded hreach hidle hactive hshort hrun⟩

/-- A query that opens a file; the transfer behind it is not recorded, since tracing has been switched
off by then. -/
theorem trace_spells_request_query :
    ∃ w', (machine (fun _ => 0) lumbreWlStaticTable).run shipped
        (.rinit plainRequest :: (queryBody.events ++ [.rshutdown 0])) = some w' ∧
      w'.rebuilt.map valueRecord =
        (Forest.node plainRequest.record
          (.node (lumbreSpanDb, [(ascii "q", .str []), (ascii "dbt", .str []), (ascii "r", .int 0)])
            (.node (lumbreSpanFileIo, [(ascii "url", .str [])]) .nil .nil) .nil)
          .nil).map decodedRecord := by
  have hreach : (machine (fun _ => 0) lumbreWlStaticTable).Reachable shipped :=
    .start start_shipped
  obtain ⟨w', hrun, hspells⟩ := trace_spells_request hreach rfl plainRequest (by decide +kernel)
    (List.forall_mem_cons.mpr ⟨⟨by decide, by decide⟩, queryBody_short⟩) 0
  have hrecorded : shipped.recordedCalls plainRequest queryBody =
      .node (lumbreSpanDb, [(ascii "q", .str []), (ascii "dbt", .str []), (ascii "r", .int 0)])
        (.node (lumbreSpanFileIo, [(ascii "url", .str [])]) .nil .nil) .nil := rfl
  have hrc : ((machine (fun _ => 0) lumbreWlStaticTable).run shipped
      (.rinit plainRequest :: (queryBody.events ++ [.rshutdown 0]))).map
        (fun w => w.proc.finished.map fun r => r.rc) = some [0, 0, 0] := by
    decide +kernel
  rw [hrun, Option.map_some, Option.some_inj] at hrc
  rw [hrecorded] at hspells
  have haccepted : ∀ rc ∈ w'.proc.finished.map fun r => r.rc, rc = 0 := by
    rw [hrc]
    decide
  exact ⟨w', hrun, hspells (by decide) (List.forall_mem_map.mp haccepted)⟩

end Worker

end LumbreExt
