import LumbreExt.Module.Effects
import LumbreExt.Ringbuf.Atomicity

/-!
# The worker, its ring and the daemon

The two machines put together. A worker runs its events as in `Worker.step`; the accesses of a call to
`lumbre_ringbuf_write` are performed one by one, and the daemon takes its steps in between.

* `System`, `System.Step` — an event of the worker starts when no call is in progress; a finish that
  hands a payload over starts a call, which sees a position the daemon has published. `log` records the
  finishes of all requests.
* `System.Coupled` — the worker knows what the ring will be when the call in progress is over, except
  for `header->read_pos`; what is accepted, with the message in flight, is what the log says.
* `System.Coupled.step` — every step preserves it.
* `System.exists_settled`, `System.exists_unattended` — from every state the ring can be emptied, and
  the worker goes on without the daemon.
* `System.delivered_prefix_log` — the daemon delivers the payloads of the accepted spans, of all
  requests, in the order in which they were finished.
* `System.daemon_reads_log` — with short strings, it decodes the spans themselves.
-/

namespace LumbreExt

open Lib Lib.MsgPack

/-! ## The system -/

/-- A worker and the daemon. -/
structure System where
  worker : Worker
  /-- The ring as both parties find it, once it is open. -/
  ring : Option Spsc
  /-- What `lumbre_span_finish` did with the spans of all requests. -/
  log : List FinishResult

/-- The message in flight: that of a call which has still to publish it. -/
def Spsc.inFlight (c : Spsc) : List (List UInt8) :=
  if .storeWritePos ∈ c.ops then [c.message] else []

namespace System

/-- A worker before its first request. -/
def initial (w : Worker) : System := ⟨w, none, []⟩

/-- The ring behind a finish: with the call it makes, if it makes one. -/
def finishOn (c : Spsc) (r : FinishResult) (n : ℕ) : Spsc :=
  if r.handed.isSome then c.beginWrite r.mpBuf.buf r.mpBuf.pos.toUInt32 n else c

/-- One step of the worker or of the daemon; the events of the worker are among the `Allowed` ones. -/
inductive Step (clock : Clock) (Allowed : Event → Prop) (Observes : Spsc → ℕ → Prop) :
    System → System → Prop
  /-- An event that finishes no span; the ring may be opened in it. -/
  | event {s : System} {e : Event} {w : Worker} (hidle : ∀ c, s.ring = some c → c.ops = [])
      (hallowed : Allowed e) (hstep : s.worker.step clock e = some w)
      (hquiet : w.proc.finished = s.worker.proc.finished ∨ w.proc.finished = []) :
      Step clock Allowed Observes s
        { s with worker := w, ring := s.ring.or (w.proc.g.ringbuf.map Spsc.initial) }
  /-- An event that finishes a span, while the daemon's position is the one of count `n`. -/
  | finish {s : System} {c : Spsc} {e : Event} {w : Worker} {r : FinishResult} {n : ℕ}
      (hring : s.ring = some c) (hidle : c.ops = []) (hallowed : Allowed e)
      (hstep : s.worker.step clock e = some w)
      (hfinished : w.proc.finished = s.worker.proc.finished ++ [r])
      (he : e = .leave (UInt64.ofNat n) ∨ e = .rshutdown (UInt64.ofNat n)) (hn : n ∈ c.published)
      (hobs : Observes c n) :
      Step clock Allowed Observes s ⟨w, some (finishOn c r n), s.log ++ [r]⟩
  /-- The next access of the call in progress. -/
  | perform {s : System} {c : Spsc} {op : WriteOp} {rest : List WriteOp} (hring : s.ring = some c)
      (hops : c.ops = op :: rest) :
      Step clock Allowed Observes s { s with ring := some (c.perform op rest) }
  /-- A step of the daemon's loop. -/
  | consume {s : System} {c c' : Spsc} (hring : s.ring = some c) (hstep : c.ConsumerStep c') :
      Step clock Allowed Observes s { s with ring := some c' }
  /-- The daemon publishes its position. -/
  | publish {s : System} {c : Spsc} (hring : s.ring = some c) :
      Step clock Allowed Observes s { s with ring := some c.publish }

/-- The states of the runs of a worker. -/
def Reachable (clock : Clock) (Allowed : Event → Prop) (Observes : Spsc → ℕ → Prop) (w : Worker) :
    System → Prop :=
  Relation.ReflTransGen (Step clock Allowed Observes) (initial w)

end System

/-! ## The message in flight -/

namespace Spsc

variable {k : ℕ} {c c' : Spsc}

/-- The publishing store turns the message in flight into an accepted one. -/
lemma Inv.accepted_perform (h : Inv k c) {op : WriteOp} {rest : List WriteOp}
    (hops : c.ops = op :: rest) :
    (c.perform op rest).accepted ++ (c.perform op rest).inFlight = c.accepted ++ c.inFlight := by
  have hbefore : ∀ todo, op ≠ .storeWritePos → rest = todo ++ [.storeWritePos] →
      (c.perform op rest).accepted ++ (c.perform op rest).inFlight =
        c.accepted ++ c.inFlight := by
    rintro todo hop rfl
    have hnow : WriteOp.storeWritePos ∈ c.ops := by rw [hops]; simp
    have hthen : WriteOp.storeWritePos ∈ (c.perform op (todo ++ [.storeWritePos])).ops := by
      simp [Spsc.perform]
    rw [inFlight, inFlight, if_pos hnow, if_pos hthen]
    simp [Spsc.perform, hop]
  rcases h.producer with ⟨hidle | hrefusing, _⟩ | ⟨todo, htodo, hlocal, _⟩
  · rw [hidle] at hops
    exact absurd hops (List.cons_ne_nil _ _).symm
  · rw [hrefusing] at hops
    obtain ⟨rfl, rfl⟩ := List.cons.inj hops
    simp [Spsc.perform, inFlight, hrefusing]
  · rw [htodo] at hops
    cases todo with
    | nil =>
        obtain ⟨rfl, rfl⟩ := List.cons.inj hops
        simp [Spsc.perform, inFlight, htodo]
    | cons op' todo =>
        obtain ⟨rfl, rfl⟩ := List.cons.inj hops
        refine hbefore todo ?_ rfl
        rintro rfl
        exact hlocal _ List.mem_cons_self

end Spsc

/-! ## The coupling -/

namespace System

/-- An open ring of `2 ^ k` bytes against what the worker knows of it. -/
structure RingCoupled (k : ℕ) (c : Spsc) (rb : LumbreRingbuf) (log : List FinishResult) : Prop where
  inv : Spsc.Inv k c
  /-- When the call in progress is over, the ring is the worker's, but for `header->read_pos`. -/
  agrees : (c.rb.execAll c.ops).withReadPos 0 = rb.withReadPos 0
  accepted : c.accepted ++ c.inFlight = log.filterMap FinishResult.message
  dropped : rb.header.dropped = UInt64.ofNat (log.countP fun r => r.outcome = .refused)

/-- **The coupling invariant.** -/
structure Coupled (k : ℕ) (s : System) : Prop where
  safe : s.worker.Safe
  capacity : (lumbreNextPowerOf2 s.worker.proc.g.ringCapacity).toNat = 2 ^ k
  closed : s.ring = none → s.worker.proc.g.ringbuf = none ∧ s.log = []
  opened : ∀ c, s.ring = some c →
    ∃ rb, s.worker.proc.g.ringbuf = some rb ∧ RingCoupled k c rb s.log

variable {k : ℕ} {s s' : System} {c c' : Spsc} {rb : LumbreRingbuf} {log : List FinishResult}

/-- A fresh ring. -/
lemma ringCoupled_initial {capacity : UInt32} (hinit : Initialised capacity rb)
    (hcap : (lumbreNextPowerOf2 capacity).toNat = 2 ^ k) : RingCoupled k (.initial rb) rb [] := by
  obtain ⟨fd, path, pid, workerId, rfl⟩ := hinit.eq_openRing
  exact ⟨Spsc.inv_of_blank ⟨Geometry.openRing hcap, rfl, rfl, rfl⟩, rfl, rfl, rfl⟩

/-- A step of the daemon. -/
lemma RingCoupled.daemon (h : RingCoupled k c rb log) (hinv : Spsc.Inv k c')
    (hrb : c'.rb.withReadPos 0 = c.rb.withReadPos 0) (hops : c'.ops = c.ops)
    (hmessage : c'.message = c.message) (haccepted : c'.accepted = c.accepted) :
    RingCoupled k c' rb log where
  inv := hinv
  agrees := by
    rw [← h.agrees, LumbreRingbuf.execAll_withReadPos, LumbreRingbuf.execAll_withReadPos, hrb, hops]
  accepted := by
    rw [← h.accepted, haccepted, Spsc.inFlight, Spsc.inFlight, hops, hmessage]
  dropped := h.dropped

/-- An access of the call in progress. -/
lemma RingCoupled.perform (h : RingCoupled k c rb log) {op : WriteOp} {rest : List WriteOp}
    (hops : c.ops = op :: rest) : RingCoupled k (c.perform op rest) rb log where
  inv := h.inv.perform hops
  agrees := by
    rw [← h.agrees, hops]
    rfl
  accepted := (h.inv.accepted_perform hops).trans h.accepted
  dropped := h.dropped

/-- Between calls the two rings are the same, but for `header->read_pos`. -/
lemma RingCoupled.agrees_of_idle (h : RingCoupled k c rb log) (hidle : c.ops = []) :
    c.rb.withReadPos 0 = rb.withReadPos 0 := by
  have hagrees := h.agrees
  rw [hidle] at hagrees
  exact hagrees

/-- A finish on the worker's ring, and the call it makes on the shared one. -/
lemma RingCoupled.finish (h : RingCoupled k c rb log) (hk : 2 ≤ k) (hidle : c.ops = [])
    {fc : FinishCall} {n : ℕ} (hreadPos : fc.readPos = UInt64.ofNat n) (hn : n ∈ c.published)
    (hobs : Spsc.ObservesRecent c n) :
    RingCoupled k (finishOn c (fc.result rb) n) (fc.result rb).rb (log ++ [fc.result rb]) := by
  have hsame := h.agrees_of_idle hidle
  have haccepted : c.accepted = log.filterMap FinishResult.message := by
    have hlog := h.accepted
    rwa [Spsc.inFlight, hidle, if_neg List.not_mem_nil, List.append_nil] at hlog
  have hdropped : (fc.result rb).rb.header.dropped =
      UInt64.ofNat ((log ++ [fc.result rb]).countP fun r => r.outcome = .refused) := by
    have hone := (lumbreSpanFinish_outcome fc.span (rb.withReadPos fc.readPos) fc.mpBuf fc.ctx
      fc.minDurationNs fc.clockNs fc.maxQueryLen).2
    rw [List.countP_append, List.countP_singleton]
    refine hone.trans ?_
    change (if (fc.result rb).outcome = .refused then rb.header.dropped + 1
      else rb.header.dropped) = _
    rw [h.dropped]
    by_cases hrefused : (fc.result rb).outcome = .refused
    · rw [if_pos hrefused, if_pos (decide_eq_true hrefused)]
      exact counter_add _ 1
    · rw [if_neg hrefused, if_neg (by simp [hrefused])]
      rfl
  rcases fc.result_cases rb with
    ⟨_, hhanded, hrb, hrc, _⟩ | ⟨wc, _, hwc, hhanded, hrb, hrc, hbuf, hpos⟩
  · -- nothing is handed over
    have hfinish : finishOn c (fc.result rb) n = c := by
      rw [finishOn, hhanded]
      rfl
    have hmessage : (fc.result rb).message = none := if_neg hrc
    rw [hfinish]
    refine ⟨h.inv, ?_, ?_, hdropped⟩
    · rw [hidle, hrb]
      exact hsame
    · rw [List.filterMap_append, List.filterMap_cons_none hmessage, List.filterMap_nil,
        List.append_nil]
      exact h.accepted
  · have hfinish : finishOn c (fc.result rb) n = c.beginWrite wc.payload wc.payloadLen n := by
      rw [finishOn, hhanded, hbuf, hpos]
      exact if_pos rfl
    have hops : (c.beginWrite wc.payload wc.payloadLen n).ops = (wc.ops rb).2 := by
      change (lumbreRingbufWriteOps c.rb (UInt64.ofNat n) wc.payload wc.payloadLen).2 = _
      rw [lumbreRingbufWriteOps_congr hsame, WriteCall.ops, hwc, hreadPos]
    have hgeometry : Geometry rb k := by
      have hg := h.inv.geometry.withReadPos 0
      rw [hsame] at hg
      exact ⟨hg.capacity, hg.mask⟩
    have hpublishes : .storeWritePos ∈ (wc.ops rb).2 ↔ (fc.result rb).rc = 0 := by
      rw [hrc]
      exact lumbreRingbufWriteOps_publishes hgeometry hk _ _ _
    rw [hfinish]
    refine ⟨h.inv.beginWrite hk hidle hn hobs, ?_, ?_, hdropped⟩
    · rw [hops, hrb, LumbreRingbuf.execAll_withReadPos]
      change (c.rb.withReadPos 0).execAll _ = _
      rw [hsame, ← LumbreRingbuf.execAll_withReadPos]
      unfold WriteCall.after lumbreRingbufWrite
      dsimp only
      rw [LumbreRingbuf.execAll_withReadPos, LumbreRingbuf.execAll_withReadPos]
      rfl
    · rw [List.filterMap_append, ← haccepted, Spsc.inFlight, hops]
      by_cases hzero : (fc.result rb).rc = 0
      · have hmessage : (fc.result rb).message = some wc.message := by
          rw [FinishResult.message, if_pos hzero, hhanded]
        rw [if_pos (hpublishes.mpr hzero), List.filterMap_cons_some hmessage]
        rfl
      · have hmessage : (fc.result rb).message = none := if_neg hzero
        rw [if_neg (mt hpublishes.mp hzero), List.filterMap_cons_none hmessage]
        rfl

/-! ## Every step preserves it -/

variable {clock : Clock} {Allowed : Event → Prop}

lemma coupled_initial {table : List LumbreWlStaticEntry} {w : Worker} (hw : Worker.Start table w)
    (hcap : (lumbreNextPowerOf2 w.proc.g.ringCapacity).toNat = 2 ^ k) : Coupled k (initial w) where
  safe := Worker.safe_start hw
  capacity := hcap
  closed := by
    obtain ⟨settings, g, hg, rfl⟩ := hw
    obtain ⟨whitelist, _, rfl⟩ := Option.map_eq_some_iff.mp hg
    exact fun _ => ⟨rfl, rfl⟩
  opened := fun _ h => absurd h.symm (Option.some_ne_none _)

/-- The size of the ring is no setting a script may change. -/
lemma ringCapacity_step {w w' : Worker} {e : Event} (hsafe : w.Safe)
    (hstep : w.step clock e = some w') :
    w'.proc.g.ringCapacity = w.proc.g.ringCapacity :=
  congrArg (fun n : Int64 => n.toUInt64.toUInt32) (Worker.effect_of_step hsafe hstep).2

/-- An event that finishes a span carries the position its call sees. -/
lemma readPos_of_event {e : Event} {p q : UInt64} (hp : e = .leave p ∨ e = .rshutdown p)
    (hq : e = .leave q ∨ e = .rshutdown q) : p = q := by
  rcases hp with rfl | rfl
  · rcases hq with hq | hq
    · exact Event.leave.inj hq
    · exact Event.noConfusion hq
  · rcases hq with hq | hq
    · exact Event.noConfusion hq
    · exact Event.rshutdown.inj hq

/-- **Every step preserves the coupling.** -/
theorem Coupled.step (h : Coupled k s) (hk : 2 ≤ k)
    (hstep : Step clock Allowed Spsc.ObservesRecent s s') : Coupled k s' := by
  cases hstep with
  | @event e w hidle hallowed hstep hquiet =>
      have hcap := ringCapacity_step h.safe hstep
      refine ⟨h.safe.step clock hstep, hcap ▸ h.capacity, ?_, ?_⟩
      · intro hnone
        obtain ⟨hring, hworker⟩ := Option.or_eq_none_iff.mp hnone
        exact ⟨Option.map_eq_none_iff.mp hworker, (h.closed hring).2⟩
      · intro c hc
        dsimp only at hc ⊢
        rcases (Worker.effect_of_step h.safe hstep).1.ring_of_quiet hquiet with
          hsame | ⟨hclosed, rb, hring, hinit⟩
        · rw [hsame] at hc ⊢
          cases hs : s.ring with
          | none =>
              rw [hs, (h.closed hs).1] at hc
              exact absurd hc.symm (Option.some_ne_none c)
          | some c₀ =>
              rw [hs] at hc
              obtain rfl := Option.some_inj.mp hc
              exact h.opened _ hs
        · cases hs : s.ring with
          | none =>
              rw [hs, hring] at hc
              obtain rfl := Option.some_inj.mp hc
              rw [(h.closed hs).2]
              exact ⟨rb, hring, ringCoupled_initial hinit h.capacity⟩
          | some c₀ =>
              obtain ⟨rb₀, hrb₀, _⟩ := h.opened c₀ hs
              rw [hclosed] at hrb₀
              exact absurd hrb₀.symm (Option.some_ne_none rb₀)
  | @finish c e w r n hring hidle hallowed hstep hfinished he hn hobs =>
      have hcap := ringCapacity_step h.safe hstep
      obtain ⟨rb, hrb, hcoupled⟩ := h.opened c hring
      refine ⟨h.safe.step clock hstep, hcap ▸ h.capacity, fun hnone =>
        absurd hnone (Option.some_ne_none _), ?_⟩
      intro c' hc'
      obtain rfl := Option.some_inj.mp hc'
      obtain ⟨rb', fc, he', _, _, hring', hring'', rfl⟩ :=
        (Worker.effect_of_step h.safe hstep).1.exists_finish hfinished
      obtain rfl := Option.some_inj.mp (hring'.symm.trans hrb)
      exact ⟨_, hring'', hcoupled.finish hk hidle (readPos_of_event he' he) hn hobs⟩
  | @perform c op rest hring hops =>
      refine ⟨h.safe, h.capacity, fun hnone => absurd hnone (Option.some_ne_none _), ?_⟩
      intro c' hc'
      obtain rfl := Option.some_inj.mp hc'
      obtain ⟨rb, hrb, hcoupled⟩ := h.opened c hring
      exact ⟨rb, hrb, hcoupled.perform hops⟩
  | @consume c c' hring hstep =>
      refine ⟨h.safe, h.capacity, fun hnone => absurd hnone (Option.some_ne_none _), ?_⟩
      intro c'' hc''
      obtain rfl := Option.some_inj.mp hc''
      obtain ⟨rb, hrb, hcoupled⟩ := h.opened c hring
      obtain ⟨hsame, hops, hmessage, haccepted⟩ := hstep.producer_eq
      exact ⟨rb, hrb, hcoupled.daemon (hcoupled.inv.step hk hstep.step) (by rw [hsame]) hops
        hmessage haccepted⟩
  | @publish c hring =>
      refine ⟨h.safe, h.capacity, fun hnone => absurd hnone (Option.some_ne_none _), ?_⟩
      intro c' hc'
      obtain rfl := Option.some_inj.mp hc'
      obtain ⟨rb, hrb, hcoupled⟩ := h.opened c hring
      exact ⟨rb, hrb, hcoupled.daemon hcoupled.inv.publish rfl rfl rfl rfl⟩

/-! ## What the daemon delivers -/

lemma coupled_of_reachable {table : List LumbreWlStaticEntry} {w : Worker}
    (hw : Worker.Start table w) (hcap : (lumbreNextPowerOf2 w.proc.g.ringCapacity).toNat = 2 ^ k)
    (hk : 2 ≤ k) (h : Reachable clock Allowed Spsc.ObservesRecent w s) : Coupled k s := by
  induction h with
  | refl => exact coupled_initial hw hcap
  | tail _ hstep ih => exact ih.step hk hstep

lemma RingCoupled.delivered_prefix (h : RingCoupled k c rb log) :
    c.delivered <+: log.filterMap FinishResult.message := by
  obtain ⟨pending, haccepted, _⟩ := h.inv.pending
  rw [← h.accepted, haccepted, List.append_assoc]
  exact List.prefix_append _ _

/-- Between calls, a daemon at the announced position has everything. -/
lemma RingCoupled.delivered_eq (h : RingCoupled k c rb log) (hidle : c.ops = [])
    (hpos : c.pos = c.rb.header.writePos) :
    c.delivered = log.filterMap FinishResult.message := by
  have hwritten := h.inv.producer.written_eq hidle
  have haccepted := h.accepted
  rw [Spsc.inFlight, hidle, if_neg List.not_mem_nil, List.append_nil] at haccepted
  rw [← haccepted]
  apply h.inv.accepted_eq_of_caught_up
  rw [hpos, h.inv.writePos_eq, h.inv.localWritePos_eq, hwritten]

lemma RingCoupled.dropped_eq (h : RingCoupled k c rb log) (hidle : c.ops = []) :
    c.rb.header.dropped = UInt64.ofNat (log.countP fun r => r.outcome = .refused) := by
  have hsame := congrArg (fun rb : LumbreRingbuf => rb.header.dropped) (h.agrees_of_idle hidle)
  exact hsame.trans h.dropped

/-! ## Catching up -/

/-- The call in progress can be completed; it is none of the daemon's business. -/
lemma exists_performed {Observes : Spsc → ℕ → Prop} (hring : s.ring = some c) :
    ∃ c', Relation.ReflTransGen (Step clock Allowed Observes) s { s with ring := some c' } ∧
      c'.ops = [] ∧ c'.consumed = c.consumed ∧ c'.published = c.published := by
  induction hops : c.ops generalizing s c with
  | nil =>
      obtain ⟨worker, ring, log⟩ := s
      obtain rfl : ring = some c := hring
      exact ⟨c, .refl, hops, rfl, rfl⟩
  | cons op rest ih =>
      have hnext : Step clock Allowed Observes s { s with ring := some (c.perform op rest) } :=
        .perform hring hops
      obtain ⟨c', hc', hrest⟩ := ih (s := { s with ring := some (c.perform op rest) }) rfl rfl
      exact ⟨c', .head hnext hc', hrest⟩

/-- The daemon can take the steps of its loop. -/
lemma reflTransGen_consume {Observes : Spsc → ℕ → Prop} {n : ℕ} (hring : s.ring = some c)
    (hsteps : Steps Spsc.ConsumerStep n c c') :
    Relation.ReflTransGen (Step clock Allowed Observes) s { s with ring := some c' } := by
  induction hsteps generalizing s with
  | refl =>
      obtain ⟨worker, ring, log⟩ := s
      obtain rfl := hring
      exact .refl
  | @head n c c₁ c' hstep _ ih =>
      have hrest := ih (s := { s with ring := some c₁ }) rfl
      exact .head (.consume hring hstep) hrest

lemma Coupled.steps (h : Coupled k s) (hk : 2 ≤ k)
    (hsteps : Relation.ReflTransGen (Step clock Allowed Spsc.ObservesRecent) s s') :
    Coupled k s' := by
  induction hsteps with
  | refl => exact h
  | tail _ hstep ih => exact ih.step hk hstep

/-- **From every state the ring can be emptied**, with no event of the worker: the call in progress
comes to its end, and the daemon to the announced position. -/
lemma exists_settled (h : Coupled k s) (hk : 2 ≤ k) (hring : s.ring = some c) :
    ∃ c', Relation.ReflTransGen (Step clock Allowed Spsc.ObservesRecent) s
        { s with ring := some c' } ∧ c'.ops = [] ∧ c'.pos = c'.rb.header.writePos := by
  have hperformed : ∃ c', Relation.ReflTransGen (Step clock Allowed Spsc.ObservesRecent) s
      { s with ring := some c' } ∧ c'.ops = [] ∧ c'.consumed = c.consumed ∧
        c'.published = c.published := exists_performed hring
  obtain ⟨c₁, hsteps₁, hidle, _⟩ := hperformed
  obtain ⟨rb, _, hcoupled⟩ := (h.steps hk hsteps₁).opened c₁ rfl
  have hstart : Spsc.Draining k c₁.accepted c₁ := ⟨hcoupled.inv, rfl⟩
  obtain ⟨n, c₂, hsteps, hstuck⟩ :=
    exists_steps_stuck (Spsc.Draining.step hk) Spsc.Draining.backlog_lt hstart
  have hops : c₂.ops = [] := by
    refine hsteps.invariant (I := fun c => c.ops = []) (fun c c' hc hstep => ?_) hidle
    exact hstep.producer_eq.2.1.trans hc
  refine ⟨c₂, hsteps₁.trans (reflTransGen_consume rfl hsteps), hops, ?_⟩
  cases hpc : c₂.pc with
  | loop =>
      by_contra hne
      exact hstuck _ (.readHeader hpc hne)
  | restart => exact absurd (.readRestart hpc) (hstuck _)
  | gotLen offset len => exact absurd (.deliver hpc) (hstuck _)

/-- More events, and more positions to be seen, take no step away. -/
lemma Step.mono {Allowed' : Event → Prop} {Observes Observes' : Spsc → ℕ → Prop}
    (hevents : ∀ e, Allowed e → Allowed' e) (hobserves : ∀ c n, Observes c n → Observes' c n)
    (h : Step clock Allowed Observes s s') : Step clock Allowed' Observes' s s' := by
  cases h with
  | event hidle hallowed hstep hquiet => exact .event hidle (hevents _ hallowed) hstep hquiet
  | finish hring hidle hallowed hstep hfinished he hn hobs =>
      exact .finish hring hidle (hevents _ hallowed) hstep hfinished he hn (hobserves _ _ hobs)
  | perform hring hops => exact .perform hring hops
  | consume hring hstep => exact .consume hring hstep
  | publish hring => exact .publish hring

/-! ## A daemon that is asleep -/

/-- The producer is between calls, and the daemon has not taken a step. -/
structure Untouched (c : Spsc) : Prop where
  idle : c.ops = []
  consumed : c.consumed = 0
  published : 0 ∈ c.published

/-- The ring is not full enough for the position `0` to be out of date. -/
lemma Untouched.observesRecent (h : Untouched c) (hinv : Spsc.Inv k c) :
    Spsc.ObservesRecent c 0 := by
  have hwritten := hinv.producer.written_le hinv.announced_le
  have hcapLe := hinv.geometry.capacity_le
  change c.written - 0 + c.rb.capacity.toNat < 2 ^ 64
  rw [hinv.geometry.capacity]
  rw [h.consumed] at hwritten
  omega

/-- **An event of the worker does not wait for the daemon**: with the position `0` published, it takes
place, and its call runs to its end. -/
lemma exists_unattended_step (Allowed : Event → Prop) {w' : Worker} {e : Event} (h : Coupled k s)
    (hring : s.ring = some c) (hc : Untouched c) (hallowed : Allowed e)
    (hpos : ∀ readPos, e = .leave readPos ∨ e = .rshutdown readPos → readPos = 0)
    (hstep : s.worker.step clock e = some w') :
    ∃ c' new, Relation.ReflTransGen (Step clock Allowed Spsc.ObservesRecent) s
        ⟨w', some c', s.log ++ new⟩ ∧ Untouched c' ∧
      (w'.proc.finished = s.worker.proc.finished ++ new ∨
        (∃ env, e = .rinit env) ∧ w'.proc.finished = [] ∧ new = []) := by
  have hidle : ∀ c₀, s.ring = some c₀ → c₀.ops = [] := by
    intro c₀ hc₀
    rw [← Option.some_inj.mp (hring.symm.trans hc₀)]
    exact hc.idle
  obtain ⟨rb, hrb, hcoupled⟩ := h.opened c hring
  cases (Worker.effect_of_step h.safe hstep).1 with
  | keeps hsame hfinished =>
      have hevent : Step clock Allowed Spsc.ObservesRecent s
          ⟨w', s.ring.or (w'.proc.g.ringbuf.map Spsc.initial), s.log⟩ :=
        .event hidle hallowed hstep (hfinished.imp_right And.right)
      rw [hring, ← List.append_nil s.log] at hevent
      refine ⟨c, [], .single hevent, hc, ?_⟩
      rcases hfinished with hkept | ⟨hrinit, hnone⟩
      · exact Or.inl (hkept.trans (List.append_nil _).symm)
      · exact Or.inr ⟨hrinit, hnone, rfl⟩
  | opens hclosed _ _ _ =>
      rw [hclosed] at hrb
      exact absurd hrb.symm (Option.some_ne_none rb)
  | @finishes _ _ rb' fc he _ _ _ _ _ hfinished =>
      have hzero : fc.readPos = UInt64.ofNat 0 := hpos fc.readPos he
      have hevent : Step clock Allowed Spsc.ObservesRecent s
          ⟨w', some (finishOn c (fc.result rb') 0), s.log ++ [fc.result rb']⟩ :=
        .finish hring hc.idle hallowed hstep hfinished (hzero ▸ he) hc.published
          (hc.observesRecent hcoupled.inv)
      have hsame : (finishOn c (fc.result rb') 0).consumed = c.consumed ∧
          (finishOn c (fc.result rb') 0).published = c.published := by
        unfold finishOn
        split_ifs
        · exact ⟨rfl, rfl⟩
        · exact ⟨rfl, rfl⟩
      have hperformed : ∃ c', Relation.ReflTransGen (Step clock Allowed Spsc.ObservesRecent)
          ⟨w', some (finishOn c (fc.result rb') 0), s.log ++ [fc.result rb']⟩
          ⟨w', some c', s.log ++ [fc.result rb']⟩ ∧ c'.ops = [] ∧
            c'.consumed = (finishOn c (fc.result rb') 0).consumed ∧
            c'.published = (finishOn c (fc.result rb') 0).published := exists_performed rfl
      obtain ⟨c', hsteps, hdone, hconsumed, hpublished⟩ := hperformed
      exact ⟨c', [fc.result rb'], .head hevent hsteps,
        ⟨hdone, hconsumed.trans (hsame.1.trans hc.consumed), hpublished ▸ hsame.2 ▸ hc.published⟩,
        Or.inl hfinished⟩

/-- **Neither does a sequence of them**, inside one request. -/
lemma exists_unattended {table : List LumbreWlStaticEntry} {w' : Worker} {es : List Event}
    (h : Coupled k s) (hk : 2 ≤ k) (hring : s.ring = some c) (hc : Untouched c)
    (hes : ∀ e ∈ es, Allowed e ∧ (∀ env, e ≠ .rinit env) ∧
      ∀ readPos, e = .leave readPos ∨ e = .rshutdown readPos → readPos = 0)
    (hrun : (Worker.machine clock table).run s.worker es = some w') :
    ∃ c' new, Relation.ReflTransGen (Step clock Allowed Spsc.ObservesRecent) s
        ⟨w', some c', s.log ++ new⟩ ∧ Untouched c' ∧
      w'.proc.finished = s.worker.proc.finished ++ new := by
  induction es generalizing s c with
  | nil =>
      obtain ⟨worker, ring, log⟩ := s
      obtain rfl : ring = some c := hring
      obtain rfl : worker = w' := Option.some_inj.mp hrun
      exact ⟨c, [], by rw [List.append_nil], hc, (List.append_nil _).symm⟩
  | cons e es ih =>
      obtain ⟨w₁, hstep, hrest⟩ := Option.bind_eq_some_iff.mp hrun
      obtain ⟨hallowed, hinside, hpos⟩ := hes e List.mem_cons_self
      obtain ⟨c₁, new₁, hsteps₁, hc₁, hfinished₁⟩ :=
        exists_unattended_step Allowed h hring hc hallowed hpos hstep
      have hkept := hfinished₁.resolve_right fun hrinit => hrinit.1.elim hinside
      obtain ⟨c', new, hsteps, hc', hfinished⟩ := ih (h.steps hk hsteps₁) rfl hc₁
        (fun e' he' => hes e' (List.mem_cons_of_mem e he')) hrest
      refine ⟨c', new₁ ++ new, ?_, hc', ?_⟩
      · rw [← List.append_assoc]
        exact hsteps₁.trans hsteps
      · rw [hfinished, hkept, List.append_assoc]

/-- A worker in its first request, with an empty ring. -/
lemma reachable_opened {Observes : Spsc → ℕ → Prop} {w₁ : Worker} {env : RequestEnv}
    (hallowed : Allowed (.rinit env)) (hstep : Worker.shipped.step clock (.rinit env) = some w₁)
    (hrb : w₁.proc.g.ringbuf = some rb) (hnone : w₁.proc.finished = []) :
    Reachable clock Allowed Observes Worker.shipped ⟨w₁, some (.initial rb), []⟩ := by
  have hevent : Step clock Allowed Observes (initial Worker.shipped)
      ⟨w₁, none.or (w₁.proc.g.ringbuf.map Spsc.initial), []⟩ :=
    .event (fun _ h => absurd h.symm (Option.some_ne_none _)) hallowed hstep (Or.inr hnone)
  rw [hrb] at hevent
  exact .single hevent

/-- A clock that shows how often it has been read. -/
def countingClock : Clock := fun t => UInt64.ofNat t

/-- A query that opens a file, and the end of the request. -/
def tracedCalls : List Event :=
  [.enter (.internal ⟨some (ascii "query"), some (ascii "PDO"), false, none⟩
      [.string (ascii "SELECT 1")]),
    .enter (.internal ⟨some (ascii "fopen"), none, false, none⟩ [.string (ascii "/tmp/a")]),
    .leave 0, .leave 0, .rshutdown 0]

lemma tracedCalls_short : ∀ e ∈ tracedCalls, e.Short := by
  have hquery : (HookCall.internal ⟨some (ascii "query"), some (ascii "PDO"), false, none⟩
      [.string (ascii "SELECT 1")]).Short := ⟨⟨by decide, by decide, by decide⟩, by decide⟩
  have hfopen : (HookCall.internal ⟨some (ascii "fopen"), none, false, none⟩
      [.string (ascii "/tmp/a")]).Short := ⟨⟨by decide, by decide, by decide⟩, by decide⟩
  simp [tracedCalls, Event.Short, hquery, hfopen]

/-- What the spans of that request say, in the order in which they are finished. -/
def tracedSpans : List (List (List UInt8 × Scalar)) :=
  [[(ascii "t", .int 6), (ascii "tid", .bin (List.replicate 16 0)), (ascii "sid", .int 3),
      (ascii "pid", .int 2), (ascii "s", .int 2), (ascii "d", .int 1),
      (ascii "url", .str (ascii "/tmp/a"))],
    [(ascii "t", .int 3), (ascii "tid", .bin (List.replicate 16 0)), (ascii "sid", .int 2),
      (ascii "pid", .int 1), (ascii "s", .int 1), (ascii "d", .int 3),
      (ascii "q", .str (ascii "SELECT 1")), (ascii "dbt", .str (ascii "pdo")),
      (ascii "r", .int 0)],
    [(ascii "t", .int 1), (ascii "tid", .bin (List.replicate 16 0)), (ascii "sid", .int 1),
      (ascii "pid", .int 0), (ascii "s", .int 0), (ascii "d", .int 5), (ascii "uri", .str []),
      (ascii "mth", .str (ascii "CLI"))]]

lemma untouched_initial (rb : LumbreRingbuf) : Untouched (.initial rb) :=
  ⟨rfl, rfl, List.mem_singleton.mpr rfl⟩

/-- The first request of a worker behind its RINIT, with the daemon asleep: all its spans are
accepted. -/
lemma exists_tracedSteps :
    ∃ w₁ rb s c, Worker.shipped.step countingClock (.rinit Worker.plainRequest) = some w₁ ∧
      w₁.proc.g.ringbuf = some rb ∧ w₁.proc.finished = [] ∧
      Relation.ReflTransGen (Step countingClock (fun e => e ∈ tracedCalls) Spsc.ObservesRecent)
        ⟨w₁, some (.initial rb), []⟩ s ∧
      s.ring = some c ∧ Untouched c ∧ s.log.map (fun r => r.span.fields) = tracedSpans ∧
      (∀ r ∈ s.log, r.rc = 0 ∧ r.message.isSome) ∧
      (Worker.machine countingClock lumbreWlStaticTable).run w₁ tracedCalls = some s.worker := by
  have hopen : (Worker.shipped.step countingClock (.rinit Worker.plainRequest)).map
      (fun w => (w.proc.g.ringbuf.isSome, w.proc.finished.length)) = some (true, 0) := by
    decide +kernel
  obtain ⟨w₁, hw₁, hopened⟩ := Option.map_eq_some_iff.mp hopen
  obtain ⟨hring, hnone⟩ := Prod.mk.inj hopened
  obtain ⟨rb, hrb⟩ := Option.isSome_iff_exists.mp hring
  have hfirst : Reachable countingClock (fun _ => True) Spsc.ObservesRecent Worker.shipped
      ⟨w₁, some (.initial rb), []⟩ :=
    reachable_opened trivial hw₁ hrb (List.length_eq_zero_iff.mp hnone)
  have hcoupled := coupled_of_reachable (k := 22) Worker.start_shipped (by decide +kernel)
    (by decide) hfirst
  have hspans : ((Worker.machine countingClock lumbreWlStaticTable).run Worker.shipped
      (.rinit Worker.plainRequest :: tracedCalls)).map
        (fun w => (w.proc.finished.map (fun r => r.span.fields),
          w.proc.finished.map fun r => (r.rc, r.message.isSome))) =
          some (tracedSpans, [(0, true), (0, true), (0, true)]) := by decide +kernel
  obtain ⟨w', hrun, hview⟩ := Option.map_eq_some_iff.mp hspans
  obtain ⟨w₁', hw₁', hrest⟩ := Option.bind_eq_some_iff.mp hrun
  obtain rfl := Option.some_inj.mp (hw₁'.symm.trans hw₁)
  have hes : ∀ e ∈ tracedCalls, e ∈ tracedCalls ∧ (∀ env, e ≠ .rinit env) ∧
      ∀ readPos, e = .leave readPos ∨ e = .rshutdown readPos → readPos = 0 := by
    intro e he
    refine ⟨he, ?_, ?_⟩
    · rintro env rfl
      simp [tracedCalls] at he
    · rintro readPos (rfl | rfl)
      · simpa [tracedCalls] using he
      · simpa [tracedCalls] using he
  obtain ⟨c, new, hsteps, hc, hfinished⟩ := exists_unattended hcoupled (by decide) rfl
    (untouched_initial rb) hes hrest
  rw [List.length_eq_zero_iff.mp hnone, List.nil_append] at hfinished
  obtain ⟨hfields, haccepted⟩ := Prod.mk.inj hview
  rw [hfinished] at hfields haccepted
  refine ⟨w₁', rb, _, c, hw₁, hrb, List.length_eq_zero_iff.mp hnone, hsteps, rfl, hc, hfields, ?_,
    hrest⟩
  intro r hr
  have hmem : (r.rc, r.message.isSome) ∈ [((0 : ℤ), true), (0, true), (0, true)] := by
    rw [← haccepted]
    exact List.mem_map.mpr ⟨r, hr, rfl⟩
  simpa using hmem

/-- The first request of a worker, among some allowed events. -/
lemma exists_tracedRequest (Allowed : Event → Prop) (hrinit : Allowed (.rinit Worker.plainRequest))
    (hcalls : ∀ e ∈ tracedCalls, Allowed e) :
    ∃ w₁ rb s c, Reachable countingClock Allowed Spsc.ObservesRecent Worker.shipped
        ⟨w₁, some (.initial rb), []⟩ ∧
      Relation.ReflTransGen (Step countingClock Allowed Spsc.ObservesRecent)
        ⟨w₁, some (.initial rb), []⟩ s ∧
      s.ring = some c ∧ Untouched c ∧ s.log.map (fun r => r.span.fields) = tracedSpans ∧
      (∀ r ∈ s.log, r.rc = 0 ∧ r.message.isSome) ∧
      (Worker.machine countingClock lumbreWlStaticTable).run Worker.shipped
        (.rinit Worker.plainRequest :: tracedCalls) = some s.worker := by
  obtain ⟨w₁, rb, s, c, hw₁, hrb, hnone, hsteps, hc, huntouched, hspans, haccepted, hrun⟩ :=
    exists_tracedSteps
  refine ⟨w₁, rb, s, c, reachable_opened hrinit hw₁ hrb hnone, ?_, hc, huntouched, hspans,
    haccepted, ?_⟩
  · exact hsteps.lift id fun _ _ hstep => hstep.mono hcalls fun _ _ hobs => hobs
  · rw [Machine.run_cons]
    exact Option.bind_eq_some_iff.mpr ⟨w₁, hw₁, hrun⟩

/-- **The daemon delivers what the worker accepted, over all requests.** With a ring of `2 ^ k ≥ 4`
bytes, in every run of a worker and the daemon in which each call sees a position published less than
`2 ^ 64 - capacity` bytes ago: the payloads delivered so far are the first ones of the accepted spans
of the log, in its order. Between calls they are all of them when the daemon stands at
`header->write_pos`, and `header->dropped` is the number of spans the ring has refused, modulo
`2 ^ 64`. -/
theorem delivered_prefix_log {table : List LumbreWlStaticEntry} {w : Worker}
    (hw : Worker.Start table w) (hcap : (lumbreNextPowerOf2 w.proc.g.ringCapacity).toNat = 2 ^ k)
    (hk : 2 ≤ k) (h : Reachable clock (fun _ => True) Spsc.ObservesRecent w s)
    (hring : s.ring = some c) :
    c.delivered <+: s.log.filterMap FinishResult.message ∧
      (c.ops = [] →
        (c.pos = c.rb.header.writePos →
          c.delivered = s.log.filterMap FinishResult.message) ∧
        c.rb.header.dropped = UInt64.ofNat (s.log.countP fun r => r.outcome = .refused)) := by
  obtain ⟨rb, _, hcoupled⟩ := (coupled_of_reachable hw hcap hk h).opened c hring
  exact ⟨hcoupled.delivered_prefix, fun hidle =>
    ⟨hcoupled.delivered_eq hidle, hcoupled.dropped_eq hidle⟩⟩

/-- Behind a request with nested calls, its three payloads. -/
theorem delivered_prefix_log_traced_request :
    ∃ s c, Reachable countingClock (fun _ => True) Spsc.ObservesRecent Worker.shipped s ∧
      s.ring = some c ∧ s.log.map (fun r => r.span.fields) = tracedSpans ∧
      c.delivered = s.log.filterMap FinishResult.message ∧ c.delivered.length = 3 ∧
      c.rb.header.dropped = 0 := by
  obtain ⟨_, _, s, c₀, hopened, hsteps, hc₀, _, hlog, haccepted, _⟩ :=
    exists_tracedRequest (fun _ => True) trivial fun _ _ => trivial
  have hs := hopened.trans hsteps
  have hcoupled := coupled_of_reachable (k := 22) Worker.start_shipped (by decide +kernel)
    (by decide) hs
  obtain ⟨c, hsettled, hidle, hpos⟩ := exists_settled hcoupled (by decide) hc₀
  obtain ⟨_, hall⟩ := delivered_prefix_log (k := 22) Worker.start_shipped (by decide +kernel)
    (by decide) (hs.trans hsettled) rfl
  obtain ⟨hdelivered, hdropped⟩ := hall hidle
  have hcount : s.log.countP (fun r => r.outcome = .refused) = 0 := by
    rw [List.countP_eq_zero]
    intro r hr
    simp [FinishResult.outcome, (haccepted r hr).1]
  have hlength : c.delivered.length = s.log.length := by
    rw [hdelivered hpos, List.length_filterMap_eq_countP, List.countP_eq_length]
    exact fun r hr => (haccepted r hr).2
  refine ⟨_, c, hs.trans hsettled, rfl, hlog, hdelivered hpos, ?_, ?_⟩
  · rw [hlength, ← List.length_map, hlog]
    rfl
  · rw [hdropped, hcount]
    rfl

/-! ## What the daemon reads -/

/-- A step is an event of the worker, whose finish is logged, or no business of the worker. -/
lemma Step.worker_cases {Observes : Spsc → ℕ → Prop} (h : Step clock Allowed Observes s s') :
    (∃ e, Allowed e ∧ s.worker.step clock e = some s'.worker ∧
      (s'.log = s.log ∨ ∃ r, s'.log = s.log ++ [r] ∧
        s'.worker.proc.finished = s.worker.proc.finished ++ [r])) ∨
      s'.worker = s.worker ∧ s'.log = s.log := by
  cases h with
  | event _ hallowed hstep _ => exact Or.inl ⟨_, hallowed, hstep, Or.inl rfl⟩
  | finish _ _ hallowed hstep hfinished _ _ _ =>
      exact Or.inl ⟨_, hallowed, hstep, Or.inr ⟨_, rfl, hfinished⟩⟩
  | perform _ _ => exact Or.inr ⟨rfl, rfl⟩
  | consume _ _ => exact Or.inr ⟨rfl, rfl⟩
  | publish _ => exact Or.inr ⟨rfl, rfl⟩

/-- The worker of a run is in a run of its own. -/
lemma worker_reachable {table : List LumbreWlStaticEntry} {Observes : Spsc → ℕ → Prop} {w : Worker}
    (hw : Worker.Start table w) (h : Reachable clock Allowed Observes w s) :
    (Worker.machine clock table).Reachable s.worker := by
  induction h with
  | refl => exact .start hw
  | tail _ hstep ih =>
      rcases hstep.worker_cases with ⟨e, _, hworker, _⟩ | ⟨hsame, _⟩
      · exact ih.step hworker
      · rw [hsame]
        exact ih

end System

/-- The span a finish leaves, as an object. -/
def FinishResult.spanValue (r : FinishResult) : Value := .map (r.span.fields.map entry)

/-- A finish hands over what reads back as its span, or nothing. -/
structure FinishResult.ReadsBack (r : FinishResult) : Prop where
  handed : r.rc = 0 → ∃ payload, r.handed = some payload
  decodes : ∀ payload, r.handed = some payload → decodeAll payload = some r.spanValue

/-- The accepted payloads of a log read back as its accepted spans. -/
lemma FinishResult.map_decodeAll_messages {log : List FinishResult}
    (h : ∀ r ∈ log, r.ReadsBack) :
    (log.filterMap FinishResult.message).map decodeAll =
      (log.filter fun r => r.rc = 0).map fun r => some r.spanValue := by
  induction log with
  | nil => rfl
  | cons r log ih =>
      have hrest := ih fun r' hr' => h r' (List.mem_cons_of_mem r hr')
      by_cases hrc : r.rc = 0
      · obtain ⟨payload, hpayload⟩ := (h r List.mem_cons_self).handed hrc
        have hmessage : r.message = some payload := by
          rw [message, if_pos hrc, hpayload]
        rw [List.filterMap_cons_some hmessage, List.filter_cons_of_pos (by simpa using hrc),
          List.map_cons, List.map_cons, hrest,
          (h r List.mem_cons_self).decodes payload hpayload]
      · have hmessage : r.message = none := if_neg hrc
        rw [List.filterMap_cons_none hmessage, List.filter_cons_of_neg (by simpa using hrc), hrest]

/-- What a worker finishes is well formed, and it has the whole msgpack buffer for it. -/
lemma Worker.Sound.finish {w : Worker} {fc : FinishCall} {rb : LumbreRingbuf} (h : w.Sound)
    (hsafe : w.Safe) (hspan : fc.span ∈ w.openSpans ∨ fc.span = w.proc.g.rootSpan)
    (hring : w.proc.g.ringbuf = some rb) (hbuf : fc.mpBuf = w.proc.g.mpBuf) :
    fc.span.WellFormed ∧ fc.mpBuf.capacity = lumbreMsgpackBufSize := by
  constructor
  · rcases hspan with hopen | hroot
    · exact h.openSpans _ hopen
    · exact hroot ▸ h.rootSpan
  · rw [hbuf]
    rcases hsafe.resources.ring with hclosed | hopened
    · rw [hclosed.ring] at hring
      exact absurd hring.symm (Option.some_ne_none rb)
    · exact hopened.capacity

/-- What a worker with well-formed spans finishes reads back. -/
lemma Worker.readsBack_of_step {clock : Clock} {w w' : Worker} {e : Event} {r : FinishResult}
    (hsafe : w.Safe) (hsound : w.Sound) (hstep : w.step clock e = some w')
    (hfinished : w'.proc.finished = w.proc.finished ++ [r]) : r.ReadsBack := by
  obtain ⟨rb, fc, _, hspan, hbuf, hring, _, rfl⟩ :=
    (effect_of_step hsafe hstep).1.exists_finish hfinished
  obtain ⟨hwellFormed, hcapacity⟩ := hsound.finish hsafe hspan hring hbuf
  refine ⟨?_, fun _ hpayload => fc.decodeAll_result hwellFormed hcapacity hpayload⟩
  intro hrc
  rcases fc.result_cases rb with ⟨_, _, _, hne, _⟩ | ⟨wc, _, _, hhanded, _⟩
  · exact absurd hrc hne
  · exact ⟨_, hhanded⟩

namespace System

variable {k : ℕ} {s s' : System} {c : Spsc} {clock : Clock}

/-- The spans of the worker are well formed, and what is logged reads back. -/
structure Readable (s : System) : Prop where
  sound : s.worker.Sound
  log : ∀ r ∈ s.log, r.ReadsBack

lemma Readable.step {Observes : Spsc → ℕ → Prop} (h : Readable s)
    (hwhitelist : s.worker.proc.g.whitelist = builtinWhitelist) (hsafe : s.worker.Safe)
    (hstep : Step clock Event.Short Observes s s') : Readable s' := by
  rcases hstep.worker_cases with ⟨e, hshort, hworker, hlog⟩ | ⟨hworker, hlog⟩
  · refine ⟨h.sound.step hwhitelist hsafe hshort hworker, ?_⟩
    rcases hlog with hlog | ⟨r, hlog, hfinished⟩
    · rw [hlog]
      exact h.log
    · intro r' hr'
      rw [hlog] at hr'
      rcases List.mem_append.mp hr' with hold | hnew
      · exact h.log r' hold
      · rw [List.mem_singleton.mp hnew]
        exact Worker.readsBack_of_step hsafe h.sound hworker hfinished
  · exact ⟨hworker ▸ h.sound, hlog ▸ h.log⟩

lemma readable_of_reachable {Observes : Spsc → ℕ → Prop} {w : Worker}
    (hw : Worker.Start lumbreWlStaticTable w) (h : Reachable clock Event.Short Observes w s) :
    Readable s := by
  induction h with
  | refl => exact ⟨Worker.sound_start hw, fun r hr => absurd hr List.not_mem_nil⟩
  | tail hrun hstep ih =>
      have hworker := worker_reachable hw hrun
      exact ih.step (Worker.whitelist_of_reachable hworker) (Worker.safe_of_reachable hworker) hstep

/-- **The daemon reads the spans.** In every run of the shipped module, with short strings, and the
daemon: what it delivers decodes, one object after the other, to the first accepted spans of the log
with all their fields, over all requests and in the order in which they were finished; between calls
it is all of them when the daemon stands at `header->write_pos`. -/
theorem daemon_reads_log {w : Worker} (hw : Worker.Start lumbreWlStaticTable w)
    (hcap : (lumbreNextPowerOf2 w.proc.g.ringCapacity).toNat = 2 ^ k) (hk : 2 ≤ k)
    (h : Reachable clock Event.Short Spsc.ObservesRecent w s) (hring : s.ring = some c) :
    c.delivered.map decodeAll <+:
        ((s.log.filter fun r => r.rc = 0).map fun r => some r.spanValue) ∧
      (c.ops = [] → c.pos = c.rb.header.writePos → c.delivered.map decodeAll =
        (s.log.filter fun r => r.rc = 0).map fun r => some r.spanValue) := by
  obtain ⟨rb, _, hcoupled⟩ := (coupled_of_reachable hw hcap hk h).opened c hring
  rw [← FinishResult.map_decodeAll_messages (readable_of_reachable hw h).log]
  exact ⟨hcoupled.delivered_prefix.map decodeAll, fun hidle hpos => by
    rw [hcoupled.delivered_eq hidle hpos]⟩

/-- Behind a request with nested calls, its three spans. -/
theorem daemon_reads_log_traced_request :
    ∃ s c, Reachable countingClock Event.Short Spsc.ObservesRecent Worker.shipped s ∧
      s.ring = some c ∧
      c.delivered.map decodeAll = tracedSpans.map fun fields => some (.map (fields.map entry)) := by
  obtain ⟨_, _, s, c₀, hopened, hsteps, hc₀, _, hlog, haccepted, _⟩ :=
    exists_tracedRequest Event.Short ⟨by decide, by decide⟩ tracedCalls_short
  have hs := hopened.trans hsteps
  have hcoupled := coupled_of_reachable (k := 22) Worker.start_shipped (by decide +kernel)
    (by decide) hs
  obtain ⟨c, hsettled, hidle, hpos⟩ := exists_settled hcoupled (by decide) hc₀
  obtain ⟨_, hall⟩ := daemon_reads_log (k := 22) Worker.start_shipped (by decide +kernel)
    (by decide) (hs.trans hsettled) rfl
  refine ⟨_, c, hs.trans hsettled, rfl, ?_⟩
  have hkept : s.log.filter (fun r => r.rc = 0) = s.log := by
    rw [List.filter_eq_self]
    exact fun r hr => by simpa using (haccepted r hr).1
  rw [hall hidle hpos, hkept, ← hlog, List.map_map]
  rfl

end System

end LumbreExt
