import LumbreExt.Module.Records
import LumbreExt.Ringbuf.Burst

/-!
# What an event does to the ring

One specification of the events of a worker for the results about its ring, over whole runs.

* `FinishCall.written`, `FinishCall.result_cases` — the write a finish makes, which does not depend on
  the ring: a finish that hands nothing over only looks at the daemon's position.
* `Worker.Effect`, `Worker.effect_of_step` — an event leaves the ring as it is, opens it, or finishes
  one span on it.
* `Worker.KeepsRing`, `Worker.callRing_of_reachable` — every ring of every run is one between calls.
* `Worker.Sound`, `Worker.Sound.step` — with short strings, every span the worker holds is well formed.
-/

namespace LumbreExt

open Lib

/-! ## The write of a finish -/

/-- The write a finish makes, if it hands a payload over. -/
def FinishCall.written (c : FinishCall) : Option WriteCall :=
  if c.span.Filtered c.minDurationNs c.clockNs then none
  else
    let encoded := lumbreSpanEncode (c.span.recorded c.maxQueryLen c.clockNs)
      (lumbreMsgpackReset c.mpBuf)
    if encoded.1 < 0 then none else some ⟨c.readPos, encoded.2.buf, encoded.2.pos.toUInt32⟩

/-- The bytes a write hands over. -/
def WriteCall.message (c : WriteCall) : List UInt8 := c.payload.load 0 c.payloadLen.toNat

/-- **A finish makes its write, or none.** -/
lemma FinishCall.result_cases (c : FinishCall) (rb : LumbreRingbuf) :
    (c.written = none ∧ (c.result rb).handed = none ∧
        (c.result rb).rb = rb.withReadPos c.readPos ∧ (c.result rb).rc ≠ 0 ∧
        (c.result rb).outcome ≠ .refused) ∨
      ∃ wc, c.written = some wc ∧ wc.readPos = c.readPos ∧
        (c.result rb).handed = some wc.message ∧ (c.result rb).rb = wc.after rb ∧
        (c.result rb).rc = (wc.ops rb).1 ∧ (c.result rb).mpBuf.buf = wc.payload ∧
        (c.result rb).mpBuf.pos.toUInt32 = wc.payloadLen := by
  unfold written result
  dsimp only
  rcases lumbreSpanFinish_cases c.span (rb.withReadPos c.readPos) c.mpBuf c.ctx c.minDurationNs
      c.clockNs c.maxQueryLen with
    ⟨hfilter, h⟩ | ⟨hkeep, rc, b, hencode, ⟨hrc, h⟩ | ⟨hrc, h⟩⟩
  · rw [if_pos hfilter, h]
    exact Or.inl ⟨rfl, rfl, rfl, show (1 : ℤ) ≠ 0 by decide,
      show Outcome.filtered ≠ .refused by decide⟩
  · rw [if_neg hkeep, hencode, if_pos hrc, h]
    exact Or.inl ⟨rfl, rfl, rfl, show (-1 : ℤ) ≠ 0 by decide,
      show Outcome.overflowed ≠ .refused by decide⟩
  · rw [if_neg hkeep, hencode, if_neg hrc, h]
    exact Or.inr ⟨_, rfl, rfl, rfl, rfl, rfl, rfl, rfl⟩

/-! ## The effect of an event -/

/-- `lumbre.buffer_size`, as `lumbre_ringbuf_init` gets it. -/
def LumbreSettings.ringCapacity (s : LumbreSettings) : UInt32 := s.bufferSize.toUInt64.toUInt32

namespace Process

variable {clock : Clock} {p p' : Process}

/-- A finish is a call on the ring of the worker. -/
lemma spanFinish_call {span : LumbreSpan} {minDurationNs readPos : UInt64} {r : FinishResult}
    (h : p.spanFinish clock span minDurationNs readPos = some (r, p')) :
    ∃ rb, p.g.ringbuf = some rb ∧ p' = p.afterFinish r ∧
      r = FinishCall.result ⟨span, p.g.mpBuf, p.g.ctx, minDurationNs, p.g.queryLimit,
        clock p.ticks, readPos⟩ rb := by
  unfold spanFinish at h
  split at h
  · rename_i rb _ hrb _
    cases h
    exact ⟨rb, hrb, rfl, rfl⟩
  · cases h

/-- Opening the ring fills the handle, or leaves it as it is. -/
lemma openRingbuf_ring (p : Process) (env : RequestEnv) :
    ((p.openRingbuf env).g.ringbuf = p.g.ringbuf ∨
        ∃ rb, (p.openRingbuf env).g.ringbuf = some rb ∧ Initialised p.g.ringCapacity rb) ∧
      (p.openRingbuf env).g.bufferSize = p.g.bufferSize := by
  obtain ⟨os', o, hinit⟩ : ∃ os' o, lumbreRingbufInit env.initAnswers p.os p.g.shmDir env.pid
      env.workerId p.g.ringCapacity = (os', o) := ⟨_, _, rfl⟩
  unfold openRingbuf
  rw [show p.g.bufferSize.toUInt64.toUInt32 = p.g.ringCapacity from rfl, hinit]
  cases o with
  | none => exact ⟨Or.inl rfl, rfl⟩
  | some rb => exact ⟨Or.inr ⟨rb, rfl, _, _, _, _, _, _, hinit⟩, rfl⟩

lemma lazyInit_ring (p : Process) (env : RequestEnv) :
    ((p.lazyInit env).g.ringbuf = p.g.ringbuf ∨
        ∃ rb, (p.lazyInit env).g.ringbuf = some rb ∧ Initialised p.g.ringCapacity rb) ∧
      (p.lazyInit env).g.bufferSize = p.g.bufferSize := by
  have halloc : ∀ p q : Process, p.allocStorage env = some q →
      q.g.ringbuf = p.g.ringbuf ∧ q.g.bufferSize = p.g.bufferSize := by
    intro p q hq
    unfold allocStorage at hq
    split at hq <;> cases hq <;> exact ⟨rfl, rfl⟩
  unfold lazyInit
  dsimp only
  split
  · exact ⟨Or.inl rfl, rfl⟩
  · rename_i q hq
    obtain ⟨hring, hsize⟩ := halloc _ q hq
    obtain ⟨hopen, hkeep⟩ := openRingbuf_ring { q with
      g.mpBufPtr := q.g.mpStorage
      g.mpBuf.capacity := lumbreMsgpackBufSize
      g.mpBuf.pos := 0 } env
    have hcapacity : q.g.ringCapacity = p.g.ringCapacity :=
      congrArg (fun n : Int64 => n.toUInt64.toUInt32) hsize
    refine ⟨?_, hkeep.trans hsize⟩
    rcases hopen with hsame | ⟨rb, hrb, hinit⟩
    · exact Or.inl (hsame.trans hring)
    · exact Or.inr ⟨rb, hrb, hcapacity ▸ hinit⟩

/-- RINIT opens the ring, or leaves it as it is. -/
lemma phpRinit_ring (clock : Clock) (p : Process) (env : RequestEnv) :
    ((p.phpRinit clock env).g.ringbuf = p.g.ringbuf ∨
        p.g.ringbufInitialized = 0 ∧
        ∃ rb, (p.phpRinit clock env).g.ringbuf = some rb ∧ Initialised p.g.ringCapacity rb) ∧
      (p.phpRinit clock env).g.bufferSize = p.g.bufferSize ∧
      (p.phpRinit clock env).finished = p.finished := by
  obtain ⟨q, horigin, hsame, hrinit⟩ := p.phpRinit_cases clock env
  have hq : (p.phpRinit clock env).g.ringbuf = q.g.ringbuf ∧
      (p.phpRinit clock env).g.bufferSize = q.g.bufferSize ∧
      (p.phpRinit clock env).finished = q.finished := by
    rcases hrinit with hrinit | ⟨_, hrinit⟩
    · rw [hrinit]
      exact ⟨rfl, rfl, rfl⟩
    · rw [hrinit]
      exact ⟨rfl, rfl, rfl⟩
  rw [hq.1, hq.2.1, hq.2.2]
  rcases horigin with rfl | ⟨hclosed, rfl⟩
  · exact ⟨Or.inl rfl, rfl, rfl⟩
  · obtain ⟨hring, hsize⟩ := p.lazyInit_ring env
    exact ⟨hring.imp_right fun h => ⟨hclosed, h⟩, hsize, hsame.finished⟩

end Process

namespace Worker

/-- What an event does to the ring and to the record of the finished spans. -/
inductive Effect (clock : Clock) (w : Worker) : Event → Worker → Prop
  /-- Nothing is finished, and the ring is as it was; RINIT clears the record. -/
  | keeps {e : Event} {w' : Worker} (hring : w'.proc.g.ringbuf = w.proc.g.ringbuf)
      (hfinished : w'.proc.finished = w.proc.finished ∨
        (∃ env, e = .rinit env) ∧ w'.proc.finished = []) : Effect clock w e w'
  /-- RINIT opens the ring. -/
  | opens {env : RequestEnv} {w' : Worker} {rb : LumbreRingbuf}
      (hclosed : w.proc.g.ringbuf = none) (hring : w'.proc.g.ringbuf = some rb)
      (hinit : Initialised w.proc.g.ringCapacity rb) (hfinished : w'.proc.finished = []) :
      Effect clock w (.rinit env) w'
  /-- The span of the innermost hook, or the root span, is finished. -/
  | finishes {e : Event} {w' : Worker} {rb : LumbreRingbuf} {c : FinishCall}
      (he : e = .leave c.readPos ∨ e = .rshutdown c.readPos)
      (hspan : c.span ∈ w.openSpans ∨ c.span = w.proc.g.rootSpan)
      (hbuf : c.mpBuf = w.proc.g.mpBuf) (hlimit : c.maxQueryLen = w.proc.g.queryLimit)
      (hring : w.proc.g.ringbuf = some rb) (hring' : w'.proc.g.ringbuf = some (c.result rb).rb)
      (hfinished : w'.proc.finished = w.proc.finished ++ [c.result rb]) : Effect clock w e w'

variable {clock : Clock} {w w' : Worker} {e : Event}

/-- **An event keeps the ring, opens it, or finishes one span on it.** -/
theorem effect_of_step (hsafe : w.Safe) (hstep : w.step clock e = some w') :
    Effect clock w e w' ∧ w'.proc.g.bufferSize = w.proc.g.bufferSize := by
  cases transition_of_step hstep with
  | rinit env hidle =>
      obtain ⟨hring, hsize, hfinished⟩ := w.proc.cleared.phpRinit_ring clock env
      refine ⟨?_, hsize⟩
      rcases hring with hsame | ⟨hclosed, rb, hrb, hinit⟩
      · exact .keeps hsame (Or.inr ⟨⟨env, rfl⟩, hfinished⟩)
      · have hnone : w.proc.g.ringbuf = none := by
          rcases hsafe.resources.ring with hc | ho
          · exact hc.ring
          · have hone := ho.flag
            rw [show w.proc.g.ringbufInitialized = 0 from hclosed] at hone
            exact absurd hone (by decide)
        exact .opens hnone hrb hinit hfinished
  | enter call hrunning =>
      rcases w.proc.enter_cases clock call with ⟨_, henter⟩ | ⟨_, _, _, _, henter⟩
      · rw [henter]
        exact ⟨.keeps rfl (Or.inl rfl), rfl⟩
      · rw [henter]
        exact ⟨.keeps rfl (Or.inl rfl), rfl⟩
  | @leave readPos frame rest hstack =>
      cases frame with
      | passThrough => exact ⟨.keeps rfl (Or.inl rfl), rfl⟩
      | traced span =>
          have hopen : w.openSpans = span :: (w.withStack rest).openSpans := by
            rw [openSpans, hstack]
            rfl
          have hready := ((hsafe.active (hsafe.active_of_openSpans hopen)).1).ready
          obtain ⟨r, _, hfinish⟩ :=
            Process.spanFinish_eq clock hready span w.proc.g.minDurationNs.toUInt64 readPos
          have hleave : w.proc.leave clock (.traced span) readPos =
              some (w.proc.afterFinish r) := by
            rw [Process.leave, hfinish]
            rfl
          obtain ⟨rb, hrb, _, hr⟩ := Process.spanFinish_call hfinish
          rw [hleave]
          refine ⟨.finishes (c := ⟨span, w.proc.g.mpBuf, w.proc.g.ctx,
            w.proc.g.minDurationNs.toUInt64, w.proc.g.queryLimit, clock w.proc.ticks, readPos⟩)
            (Or.inl rfl) (Or.inl ?_) rfl rfl hrb ?_ ?_, rfl⟩
          · rw [hopen]
            exact List.mem_cons_self
          · rw [← hr]
            rfl
          · rw [← hr]
            rfl
  | bailout hrunning => exact ⟨.keeps rfl (Or.inl rfl), rfl⟩
  | iniSet change => cases change <;> exact ⟨.keeps rfl (Or.inl rfl), rfl⟩
  | rshutdown readPos hrunning =>
      by_cases hactive : w.proc.g.ctx.active = 0
      · rw [Process.phpRshutdown_inactive clock hactive]
        exact ⟨.keeps rfl (Or.inl rfl), rfl⟩
      · have hready := (hsafe.active hactive).1.ready
        obtain ⟨r, _, hfinish⟩ := Process.spanFinish_eq clock hready w.proc.g.rootSpan 0 readPos
        have hshutdown : w.proc.phpRshutdown clock readPos = some (w.proc.afterShutdown r) := by
          rw [Process.phpRshutdown, if_neg hactive, hfinish]
          rfl
        obtain ⟨rb, hrb, _, hr⟩ := Process.spanFinish_call hfinish
        rw [hshutdown]
        refine ⟨.finishes (c := ⟨w.proc.g.rootSpan, w.proc.g.mpBuf, w.proc.g.ctx, 0,
          w.proc.g.queryLimit, clock w.proc.ticks, readPos⟩)
          (Or.inr rfl) (Or.inr rfl) rfl rfl hrb ?_ ?_, rfl⟩
        · rw [← hr]
          rfl
        · rw [← hr]
          rfl

/-- RINIT clears the record of the finished spans. -/
lemma finished_rinit {env : RequestEnv} (hstep : w.step clock (.rinit env) = some w') :
    w'.proc.finished = [] := by
  cases transition_of_step hstep with
  | rinit _ _ => exact (w.proc.cleared.phpRinit_ring clock env).2.2

/-- An event that adds to the record finishes a span. -/
lemma Effect.exists_finish {r : FinishResult} (h : Effect clock w e w')
    (hfinished : w'.proc.finished = w.proc.finished ++ [r]) :
    ∃ (rb : LumbreRingbuf) (c : FinishCall), (e = .leave c.readPos ∨ e = .rshutdown c.readPos) ∧
      (c.span ∈ w.openSpans ∨ c.span = w.proc.g.rootSpan) ∧ c.mpBuf = w.proc.g.mpBuf ∧
      w.proc.g.ringbuf = some rb ∧ w'.proc.g.ringbuf = some (c.result rb).rb ∧
      r = c.result rb := by
  have hnonempty : w.proc.finished ++ [r] ≠ [] :=
    List.append_ne_nil_of_right_ne_nil _ (List.cons_ne_nil r [])
  cases h with
  | keeps _ hkept =>
      rcases hkept with hkept | ⟨_, hkept⟩
      · have hself := List.self_eq_append_right.mp (hkept.symm.trans hfinished)
        exact absurd hself (List.cons_ne_nil r [])
      · exact absurd (hfinished.symm.trans hkept) hnonempty
  | opens _ _ _ hkept => exact absurd (hfinished.symm.trans hkept) hnonempty
  | @finishes _ _ rb c he hspan hbuf _ hring hring' hfinished' =>
      have hlast := List.append_cancel_left (hfinished.symm.trans hfinished')
      exact ⟨rb, c, he, hspan, hbuf, hring, hring', (List.cons.inj hlast).1⟩

/-- Any other event keeps the ring, or opens it. -/
lemma Effect.ring_of_quiet (h : Effect clock w e w')
    (hquiet : w'.proc.finished = w.proc.finished ∨ w'.proc.finished = []) :
    w'.proc.g.ringbuf = w.proc.g.ringbuf ∨ w.proc.g.ringbuf = none ∧
      ∃ rb, w'.proc.g.ringbuf = some rb ∧ Initialised w.proc.g.ringCapacity rb := by
  cases h with
  | keeps hring _ => exact Or.inl hring
  | opens hclosed hring hinit _ => exact Or.inr ⟨hclosed, _, hring, hinit⟩
  | @finishes _ _ rb c _ _ _ _ _ _ hfinished =>
      rcases hquiet with hq | hq
      · have hself := List.self_eq_append_right.mp (hq.symm.trans hfinished)
        exact absurd hself (List.cons_ne_nil _ [])
      · exact absurd (hfinished.symm.trans hq)
          (List.append_ne_nil_of_right_ne_nil _ (List.cons_ne_nil _ []))

/-! ## The ring of a run -/

/-- A worker whose ring has `2 ^ k ≥ 4` bytes has one between calls. -/
def KeepsRing (w : Worker) : Prop :=
  ∀ k, 2 ≤ k → (lumbreNextPowerOf2 w.proc.g.ringCapacity).toNat = 2 ^ k →
    ∀ rb, w.proc.g.ringbuf = some rb → CallRing k rb

/-- A finish leaves a ring between calls behind. -/
lemma callRing_result {k : ℕ} (hk : 2 ≤ k) {rb : LumbreRingbuf} (h : CallRing k rb)
    (c : FinishCall) : CallRing k (c.result rb).rb := by
  rcases c.result_cases rb with ⟨_, _, hrb, _, _⟩ | ⟨wc, _, _, _, hrb, _, _, _⟩
  · rw [hrb]
    exact ⟨h.geometry.withReadPos c.readPos, h.writePos_eq⟩
  · rw [hrb]
    exact h.after hk wc

lemma KeepsRing.step (h : w.KeepsRing) (hsafe : w.Safe) (hstep : w.step clock e = some w') :
    w'.KeepsRing := by
  obtain ⟨heffect, hsize⟩ := effect_of_step hsafe hstep
  have hcapacity : w'.proc.g.ringCapacity = w.proc.g.ringCapacity :=
    congrArg (fun n : Int64 => n.toUInt64.toUInt32) hsize
  intro k hk hcap rb' hrb'
  rw [hcapacity] at hcap
  cases heffect with
  | keeps hring _ => exact h k hk hcap rb' (hring ▸ hrb')
  | opens _ hring hinit _ =>
      obtain rfl := Option.some_inj.mp (hring.symm.trans hrb')
      obtain ⟨fd, path, pid, workerId, rfl⟩ := hinit.eq_openRing
      exact ⟨Geometry.openRing hcap, rfl⟩
  | finishes _ _ _ _ hring hring' _ =>
      obtain rfl := Option.some_inj.mp (hring'.symm.trans hrb')
      exact callRing_result hk (h k hk hcap _ hring) _

/-- **The ring of every run is one between calls.** -/
lemma callRing_of_reachable {table : List LumbreWlStaticEntry}
    (hreach : (machine clock table).Reachable w) : w.KeepsRing := by
  have hboth : w.Safe ∧ w.KeepsRing := by
    refine hreach.invariant (I := fun w => w.Safe ∧ w.KeepsRing) ?_ ?_
    · intro w hstart
      refine ⟨safe_start hstart, ?_⟩
      obtain ⟨settings, g, hg, rfl⟩ := hstart
      obtain ⟨whitelist, _, rfl⟩ := Option.map_eq_some_iff.mp hg
      intro k _ _ rb hrb
      exact absurd hrb.symm (Option.some_ne_none rb)
    · rintro w e w' ⟨hsafe, hring⟩ hstep
      exact ⟨hsafe.step clock hstep, hring.step hsafe hstep⟩
  exact hboth.2

end Worker

/-! ## Well-formed spans -/

/-- The strings of the event are short. -/
def Event.Short : Event → Prop
  | .rinit env => ShortLength env.uriAndMethod.1.length ∧ ShortLength env.uriAndMethod.2.length
  | .enter call => call.Short
  | _ => True

/-- What a finish leaves of a well-formed span is well formed. -/
lemma FinishCall.wellFormed_result {c : FinishCall} (h : c.span.WellFormed) (rb : LumbreRingbuf) :
    (c.result rb).span.WellFormed := by
  unfold result
  rcases lumbreSpanFinish_cases c.span (rb.withReadPos c.readPos) c.mpBuf c.ctx c.minDurationNs
      c.clockNs c.maxQueryLen with ⟨_, hr⟩ | ⟨_, rc, b, _, ⟨_, hr⟩ | ⟨_, hr⟩⟩
  · rw [hr]
    exact h
  · rw [hr]
    exact h.recorded c.maxQueryLen c.clockNs
  · rw [hr]
    exact h.recorded c.maxQueryLen c.clockNs

/-- What a finish hands over says what it leaves of the span. -/
lemma FinishCall.decodeAll_result {c : FinishCall} (h : c.span.WellFormed)
    (hcap : c.mpBuf.capacity = lumbreMsgpackBufSize) {rb : LumbreRingbuf} {payload : List UInt8}
    (hpayload : (c.result rb).handed = some payload) :
    MsgPack.decodeAll payload = some (.map ((c.result rb).span.fields.map entry)) := by
  have hdecode := decodeAll_of_handed h hcap hpayload
  have hspan : (c.result rb).span = c.span.recorded c.maxQueryLen c.clockNs := by
    unfold result at hpayload ⊢
    rcases lumbreSpanFinish_cases c.span (rb.withReadPos c.readPos) c.mpBuf c.ctx c.minDurationNs
        c.clockNs c.maxQueryLen with ⟨_, hr⟩ | ⟨_, rc, b, _, ⟨_, hr⟩ | ⟨_, hr⟩⟩
    · rw [hr] at hpayload
      exact absurd hpayload.symm (Option.some_ne_none payload)
    · rw [hr]
    · rw [hr]
  rw [hspan]
  exact hdecode

/-- The root span carries the URI and the method. -/
lemma wellFormed_startRoot {clock : Clock} {p : Process} {env : RequestEnv}
    (hshort : (Event.rinit env).Short) : (p.startRoot clock env).g.rootSpan.WellFormed := by
  obtain ⟨huri, hmethod⟩ := hshort
  have hsaid : ∀ q ∈ (p.startRoot clock env).g.rootSpan.strings, ∃ bs, Says q.1 q.2 bs := by
    intro q hq
    rcases strings_setHttpIn q hq with hq | rfl | rfl
    · exact strings_start q hq
    · exact ⟨_, says_strPtr huri⟩
    · exact ⟨_, says_strPtr hmethod⟩
  intro q hq
  obtain ⟨bs, h⟩ := hsaid q hq
  exact ⟨h.valid, h.short⟩

/-- RINIT starts a root span, or leaves the last one. -/
lemma Process.phpRinit_rootSpan (clock : Clock) (p : Process) (env : RequestEnv) :
    (p.phpRinit clock env).g.rootSpan = p.g.rootSpan ∨
      ∃ q : Process, (p.phpRinit clock env).g.rootSpan = (q.startRoot clock env).g.rootSpan := by
  have halloc : ∀ p q : Process, p.allocStorage env = some q → q.g.rootSpan = p.g.rootSpan := by
    intro p q hq
    unfold allocStorage at hq
    split at hq <;> cases hq <;> rfl
  have hopen : ∀ p : Process, (p.openRingbuf env).g.rootSpan = p.g.rootSpan := by
    intro p
    unfold openRingbuf
    dsimp only
    split_ifs <;> rfl
  have hlazy : (p.lazyInit env).g.rootSpan = p.g.rootSpan := by
    unfold lazyInit
    dsimp only
    split
    · rfl
    · rename_i q hq
      have hq' := halloc _ q hq
      exact (hopen _).trans hq'
  obtain ⟨q, horigin, _, hrinit | ⟨_, hrinit⟩⟩ := p.phpRinit_cases clock env
  · rw [hrinit]
    rcases horigin with rfl | ⟨_, rfl⟩
    · exact Or.inl rfl
    · exact Or.inl hlazy
  · rw [hrinit]
    exact Or.inr ⟨_, rfl⟩

namespace Worker

/-- Every span the worker holds is well formed. -/
structure Sound (w : Worker) : Prop where
  openSpans : ∀ s ∈ w.openSpans, s.WellFormed
  rootSpan : w.proc.g.rootSpan.WellFormed

variable {clock : Clock} {w w' : Worker} {e : Event}

lemma sound_start {table : List LumbreWlStaticEntry} (h : Start table w) : w.Sound := by
  obtain ⟨settings, g, hg, rfl⟩ := h
  obtain ⟨whitelist, _, rfl⟩ := Option.map_eq_some_iff.mp hg
  exact ⟨fun s hs => absurd hs List.not_mem_nil, show zeroSpan.WellFormed by decide⟩

/-- **With short strings, spans stay well formed.** -/
lemma Sound.step (h : w.Sound) (hwhitelist : w.proc.g.whitelist = builtinWhitelist) (hsafe : w.Safe)
    (hshort : e.Short) (hstep : w.step clock e = some w') : w'.Sound := by
  cases transition_of_step hstep with
  | rinit env hidle =>
      refine ⟨fun s hs => absurd hs List.not_mem_nil, ?_⟩
      rcases w.proc.cleared.phpRinit_rootSpan clock env with hsame | ⟨q, hroot⟩
      · exact hsame ▸ h.rootSpan
      · exact hroot ▸ wellFormed_startRoot hshort
  | enter call hrunning =>
      cases htype : w.proc.g.spanType call with
      | none =>
          have henter : w.proc.enter clock call = (.passThrough, w.proc) := by
            unfold Process.enter
            rw [htype]
          rw [henter]
          exact ⟨h.openSpans, h.rootSpan⟩
      | some type =>
          rw [Process.enter_eq clock htype]
          refine ⟨?_, h.rootSpan⟩
          intro s hs
          rcases List.mem_cons.mp hs with rfl | hs
          · exact (tells_payload hwhitelist hshort htype w.proc.g.ctx
              (clock w.proc.ticks)).wellFormed
          · exact h.openSpans s hs
  | @leave readPos frame rest hstack =>
      have hopen : ∀ s ∈ (w.withStack rest).openSpans, s.WellFormed := by
        intro s hs
        apply h.openSpans
        rw [Worker.openSpans, hstack]
        cases frame with
        | passThrough => exact hs
        | traced span => exact List.mem_cons_of_mem span hs
      cases hleave : w.proc.leave clock frame readPos with
      | none => exact ⟨hopen, h.rootSpan⟩
      | some p =>
          refine ⟨hopen, ?_⟩
          have hroot : p.g.rootSpan = w.proc.g.rootSpan := by
            cases frame with
            | passThrough =>
                cases hleave
                rfl
            | traced span =>
                obtain ⟨⟨r, p'⟩, hfinish, rfl⟩ := Option.map_eq_some_iff.mp hleave
                obtain ⟨_, _, hp', _⟩ := Process.spanFinish_call hfinish
                rw [hp']
                rfl
          exact hroot ▸ h.rootSpan
  | bailout hrunning => exact ⟨fun s hs => absurd hs List.not_mem_nil, h.rootSpan⟩
  | iniSet change => cases change <;> exact ⟨h.openSpans, h.rootSpan⟩
  | rshutdown readPos hrunning =>
      by_cases hactive : w.proc.g.ctx.active = 0
      · rw [Process.phpRshutdown_inactive clock hactive]
        exact ⟨fun s hs => absurd hs List.not_mem_nil, h.rootSpan⟩
      · obtain ⟨r, _, hfinish⟩ := Process.spanFinish_eq clock (hsafe.active hactive).1.ready
          w.proc.g.rootSpan 0 readPos
        have hshutdown : w.proc.phpRshutdown clock readPos = some (w.proc.afterShutdown r) := by
          rw [Process.phpRshutdown, if_neg hactive, hfinish]
          rfl
        obtain ⟨rb, _, _, rfl⟩ := Process.spanFinish_call hfinish
        rw [hshutdown]
        exact ⟨fun s hs => absurd hs List.not_mem_nil, FinishCall.wellFormed_result h.rootSpan rb⟩

end Worker

end LumbreExt
