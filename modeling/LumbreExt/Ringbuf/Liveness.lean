import LumbreExt.Lib.Simulation
import LumbreExt.Ringbuf.Refinement

/-!
# What is accepted is delivered

The consumer's progress in the concurrent system.

* `ConsumerStep` — the steps of the read loop; `Inv.exists_consumerStep`: while something accepted is
  undelivered, one of them is possible, and only then (`Inv.pending_of_consumerStep`).
* `backlog` — at most three steps a message: the word at the position, the length behind a marker,
  the payload. Every step of the loop decreases it and no step of the producer changes it.
* `drain` — on its own the loop comes to an end, and then everything is delivered.
* `eventually_delivered` — in an infinite run that does not put the consumer off for ever, every
  accepted message is delivered at some time, whatever the producer does in the meantime.
-/

namespace LumbreExt

open Lib

/-- How many steps the consumer is away from its next delivery, at most. -/
def ConsumerPc.distance : ConsumerPc → ℕ
  | .loop => 3
  | .restart => 2
  | .gotLen _ _ => 1

lemma ConsumerPc.distance_bounds (pc : ConsumerPc) : 1 ≤ pc.distance ∧ pc.distance ≤ 3 := by
  cases pc with
  | loop => exact ⟨by decide, by decide⟩
  | restart => exact ⟨by decide, by decide⟩
  | gotLen offset len => exact ⟨Nat.le_refl 1, show 1 ≤ 3 by decide⟩

namespace Spsc

/-- A step of the consumer's loop. -/
inductive ConsumerStep : Spsc → Spsc → Prop
  | readHeader {s : Spsc} (hpc : s.pc = .loop) (hpos : s.pos ≠ s.rb.header.writePos) :
      ConsumerStep s s.readHeader
  | readRestart {s : Spsc} (hpc : s.pc = .restart) : ConsumerStep s s.readRestart
  | deliver {s : Spsc} {offset len : UInt32} (hpc : s.pc = .gotLen offset len) :
      ConsumerStep s (s.deliver offset len)

/-- How many steps the consumer is away from having delivered `n` messages, at most. -/
def backlog (n : ℕ) (s : Spsc) : ℕ :=
  3 * (n - s.delivered.length) + s.pc.distance

section progress

variable {Observes : Spsc → ℕ → Prop} {k n : ℕ} {s s' : Spsc}

lemma ConsumerStep.step (h : ConsumerStep s s') : Step Observes s s' := by
  cases h with
  | readHeader hpc hpos => exact .readHeader hpc hpos
  | readRestart hpc => exact .readRestart hpc
  | deliver hpc => exact .deliver hpc

lemma ConsumerStep.accepted_eq (h : ConsumerStep s s') : s'.accepted = s.accepted := by
  cases h with
  | readHeader _ _ => exact (readHeader_fields s).2.2.1
  | readRestart _ => rfl
  | deliver _ => rfl

/-- Behind the word at the position stands the length, or the length at offset `0` is next. -/
lemma readHeader_pc (s : Spsc) :
    s.readHeader.pc = .restart ∨ ∃ offset len, s.readHeader.pc = .gotLen offset len := by
  unfold readHeader
  dsimp only
  split_ifs
  · exact Or.inl rfl
  · exact Or.inr ⟨_, _, rfl⟩

/-- A step is the consumer's, or leaves its place and what it has delivered as they are. -/
lemma Step.consumer_or_frame (h : Step Observes s s') :
    ConsumerStep s s' ∨ s'.pc = s.pc ∧ s'.delivered = s.delivered := by
  cases h with
  | beginWrite payload payloadLen r _ _ _ => exact Or.inr ⟨rfl, rfl⟩
  | perform _ => exact Or.inr ⟨rfl, rfl⟩
  | readHeader hpc hpos => exact Or.inl (.readHeader hpc hpos)
  | readRestart hpc => exact Or.inl (.readRestart hpc)
  | deliver hpc => exact Or.inl (.deliver hpc)
  | publish => exact Or.inr ⟨rfl, rfl⟩

/-- Every step of the loop is one step closer. -/
lemma ConsumerStep.backlog_lt (h : ConsumerStep s s') (hn : s.delivered.length < n) :
    backlog n s' < backlog n s := by
  cases h with
  | readHeader hpc _ =>
      have hdelivered := (readHeader_fields s).2.2.2
      unfold backlog
      rw [hdelivered, hpc]
      rcases readHeader_pc s with hpc' | ⟨offset, len, hpc'⟩
      · rw [hpc']
        exact Nat.add_lt_add_left (by decide) _
      · rw [hpc']
        exact Nat.add_lt_add_left (show 1 < 3 by decide) _
  | readRestart hpc =>
      unfold backlog
      rw [hpc]
      exact Nat.add_lt_add_left (show 1 < 2 by decide) _
  | @deliver offset len hpc =>
      unfold backlog
      rw [hpc]
      change 3 * (n - (s.delivered ++ [_]).length) + 3 < 3 * (n - s.delivered.length) + 1
      rw [List.length_append, List.length_singleton]
      omega

/-- No step takes the consumer further away. -/
lemma Step.backlog_le (h : Step Observes s s') (hn : s.delivered.length < n) :
    backlog n s' ≤ backlog n s := by
  rcases h.consumer_or_frame with hstep | ⟨hpc, hdelivered⟩
  · exact Nat.le_of_lt (hstep.backlog_lt hn)
  · exact Nat.le_of_eq (by rw [backlog, backlog, hpc, hdelivered])

/-- What is accepted stays accepted. -/
lemma Step.accepted_prefix (h : Step Observes s s') : s.accepted <+: s'.accepted := by
  obtain ⟨l, hshows⟩ := exists_shows h
  cases hshows with
  | accept haccepted _ _ => exact ⟨_, haccepted.symm⟩
  | refuse haccepted _ _ => exact ⟨[], by rw [haccepted, List.append_nil]⟩
  | receive haccepted _ _ => exact ⟨[], by rw [haccepted, List.append_nil]⟩
  | nothing haccepted _ _ => exact ⟨[], by rw [haccepted, List.append_nil]⟩

/-- At the announced position nothing is pending. -/
lemma Inv.consumed_eq_announced_iff (h : Inv k s) :
    s.pos = s.rb.header.writePos ↔ s.consumed = s.announced := by
  have hcons := h.consumed_le
  have hann := h.announced_le
  have hcap := h.geometry.capacity_le
  rw [h.pos_eq, h.writePos_eq]
  constructor
  · intro heq
    exact (eq_of_counter_eq hcons (by omega) heq.symm).symm
  · intro heq
    rw [heq]

/-- While something accepted is undelivered, the consumer has a step to take. -/
lemma Inv.exists_consumerStep (h : Inv k s) (hpending : s.delivered ≠ s.accepted) :
    ∃ t, ConsumerStep s t := by
  cases hpc : s.pc with
  | loop =>
      refine ⟨_, .readHeader hpc ?_⟩
      intro heq
      obtain ⟨pending, haccepted, hconsumer⟩ := h.pending
      have hframes := hconsumer.frames
      rw [h.consumed_eq_announced_iff.mp heq] at hframes
      rw [hframes.eq_nil_of_self, List.append_nil] at haccepted
      exact hpending haccepted.symm
  | restart => exact ⟨_, .readRestart hpc⟩
  | gotLen offset len => exact ⟨_, .deliver hpc⟩

/-- The consumer takes a step only while something accepted is undelivered. -/
lemma Inv.pending_of_consumerStep (h : Inv k s) (hstep : ConsumerStep s s') :
    s.delivered.length < s.accepted.length := by
  obtain ⟨pending, haccepted, hconsumer⟩ := h.pending
  have hne : pending ≠ [] := by
    cases hstep with
    | readHeader hpc hpos =>
        apply hconsumer.frames.ne_nil_of_ne
        intro heq
        exact hpos (h.consumed_eq_announced_iff.mpr heq)
    | readRestart hpc =>
        unfold ConsumerAt at hconsumer
        rw [hpc] at hconsumer
        exact hconsumer.2.2
    | deliver hpc =>
        unfold ConsumerAt at hconsumer
        rw [hpc] at hconsumer
        obtain ⟨msg, msgs, rfl, _⟩ := hconsumer
        exact List.cons_ne_nil msg msgs
  have hpos := List.length_pos_iff.mpr hne
  rw [haccepted, List.length_append]
  omega

end progress

/-! ## The consumer on its own -/

section drain

variable {k : ℕ} {capacity : UInt32} {rb : LumbreRingbuf} {s s' : Spsc}

/-- A state of a run of the loop alone, which accepts nothing. -/
structure Draining (k : ℕ) (accepted : List (List UInt8)) (s : Spsc) : Prop where
  inv : Inv k s
  accepted_eq : s.accepted = accepted

lemma Draining.step (hk : 2 ≤ k) {accepted : List (List UInt8)} (s t : Spsc)
    (h : Draining k accepted s) (hstep : ConsumerStep s t) : Draining k accepted t :=
  ⟨h.inv.step hk hstep.step, hstep.accepted_eq.trans h.accepted_eq⟩

lemma Draining.backlog_lt {accepted : List (List UInt8)} (s t : Spsc)
    (h : Draining k accepted s) (hstep : ConsumerStep s t) :
    backlog accepted.length t < backlog accepted.length s := by
  have hpending := h.inv.pending_of_consumerStep hstep
  rw [h.accepted_eq] at hpending
  exact hstep.backlog_lt hpending

/-- **Draining.** From every state of every run, the consumer's loop on its own takes at most three
steps for each message that is still undelivered, and two more; it comes to an end, and wherever it
ends it has delivered, in order, exactly what was accepted. -/
theorem drain (hinit : Initialised capacity rb) (hcap : capacity.toNat = 2 ^ k) (hk : 2 ≤ k)
    (hs : Reachable ObservesRecent rb s) :
    (∀ n s', Steps ConsumerStep n s s' →
      n ≤ 3 * (s.accepted.length - s.delivered.length) + 2) ∧
    (∃ n s', Steps ConsumerStep n s s' ∧ ∀ t, ¬ ConsumerStep s' t) ∧
    ∀ n s', Steps ConsumerStep n s s' → (∀ t, ¬ ConsumerStep s' t) →
      s'.delivered = s.accepted := by
  have hinv := inv_of_reachable hinit hcap hk hs
  have hstart : Draining k s.accepted s := ⟨hinv, rfl⟩
  refine ⟨?_, ?_, ?_⟩
  · intro n s' hsteps
    have hle := hsteps.add_rank_le (Draining.step hk) Draining.backlog_lt hstart
    have hfar := s.pc.distance_bounds.2
    have hnear := s'.pc.distance_bounds.1
    unfold backlog at hle
    omega
  · exact exists_steps_stuck (Draining.step hk) Draining.backlog_lt hstart
  · intro n s' hsteps hstuck
    obtain ⟨hinv', haccepted⟩ := hsteps.invariant (Draining.step hk) hstart
    rw [← haccepted]
    by_contra hne
    obtain ⟨t, ht⟩ := hinv'.exists_consumerStep hne
    exact hstuck t ht

/-- One message, in at most five steps. -/
theorem drain_one_message :
    ∃ s n s', Reachable ObservesRecent ringOfEight s ∧ s.accepted = [fourOf 7] ∧
      Steps ConsumerStep n s s' ∧ n ≤ 5 ∧ s'.delivered = [fourOf 7] := by
  obtain ⟨s, hsteps, _, haccepted, hdelivered, _⟩ :=
    quiet_initial.write ObservesRecent 7 (r := 0) (List.mem_singleton.mpr rfl)
      (show 0 - 0 + 8 < 2 ^ 64 by decide) rfl
  obtain ⟨hbound, ⟨n, s', hrun, hstuck⟩, hall⟩ :=
    drain initialised_ringOfEight (k := 3) rfl (by decide) hsteps
  refine ⟨s, n, s', hsteps, haccepted, hrun, ?_, (hall n s' hrun hstuck).trans haccepted⟩
  have hn := hbound n s' hrun
  rw [haccepted, hdelivered] at hn
  exact hn

/-! ## Both parties, for ever -/

/-- An infinite run: at every moment one of the parties takes a step, or neither does. -/
structure IsRun (Observes : Spsc → ℕ → Prop) (run : ℕ → Spsc) : Prop where
  step : ∀ i, Step Observes (run i) (run (i + 1)) ∨ run (i + 1) = run i

lemma IsRun.reachable {run : ℕ → Spsc} (h : IsRun ObservesRecent run) (hstart : run 0 = initial rb)
    (i : ℕ) : Reachable ObservesRecent rb (run i) := by
  induction i with
  | zero =>
      rw [hstart]
      exact .refl
  | succ i ih =>
      rcases h.step i with hstep | heq
      · exact ih.tail hstep
      · rwa [heq]

lemma IsRun.accepted_prefix {run : ℕ → Spsc} (h : IsRun ObservesRecent run) {i j : ℕ}
    (hij : i ≤ j) : (run i).accepted <+: (run j).accepted := by
  refine forall_ge_of_succ (P := fun j => (run i).accepted <+: (run j).accepted)
    (List.prefix_refl _) ?_ hij
  intro j _ hP
  rcases h.step j with hstep | heq
  · exact hP.trans hstep.accepted_prefix
  · rwa [heq]

/-- **Every accepted message is delivered.** In every infinite run of the two parties on a fresh
ring of `2 ^ k ≥ 4` bytes in which the consumer's loop is not put off for ever, what is accepted at
one moment is delivered, in order, at a later one. -/
theorem eventually_delivered (hinit : Initialised capacity rb) (hcap : capacity.toNat = 2 ^ k)
    (hk : 2 ≤ k) {run : ℕ → Spsc} (hstart : run 0 = initial rb) (hrun : IsRun ObservesRecent run)
    (hfair : WeaklyFair ConsumerStep run) (i : ℕ) :
    ∃ j ≥ i, (run i).accepted <+: (run j).delivered := by
  have hinv : ∀ j, Inv k (run j) := fun j => inv_of_reachable hinit hcap hk (hrun.reachable hstart j)
  obtain ⟨j, hj, hgoal⟩ := eventually_of_rank
    (fun s => (run i).accepted.length ≤ s.delivered.length) (backlog (run i).accepted.length)
    (by
      intro j _ hnot
      rcases hrun.step j with hstep | heq
      · exact hstep.backlog_le (Nat.lt_of_not_le hnot)
      · rw [heq])
    (fun j _ hnot hstep => hstep.backlog_lt (Nat.lt_of_not_le hnot))
    (by
      intro j hj hnot
      apply (hinv j).exists_consumerStep
      intro heq
      apply hnot
      rw [heq]
      exact (hrun.accepted_prefix hj).length_le)
    hfair
  refine ⟨j, hj, ?_⟩
  -- both are prefixes of what is accepted by then
  obtain ⟨pending, haccepted, _⟩ := (hinv j).pending
  exact List.prefix_of_prefix_length_le (hrun.accepted_prefix hj) ⟨pending, haccepted.symm⟩ hgoal

/-- A schedule: the call in progress runs to its end, then the consumer's loop does. -/
def settle (s : Spsc) : Spsc :=
  match s.ops, s.pc with
  | op :: rest, _ => s.perform op rest
  | [], .gotLen offset len => s.deliver offset len
  | [], .restart => s.readRestart
  | [], .loop => if s.pos = s.rb.header.writePos then s else s.readHeader

/-- One call on a fresh ring, and then the schedule for ever. -/
def settledRun : ℕ → Spsc
  | 0 => initial ringOfEight
  | 1 => (initial ringOfEight).beginWrite (fun _ => 7) 4 0
  | i + 2 => (settledRun (i + 1)).settle

lemma settle_step (s : Spsc) : Step ObservesRecent s s.settle ∨ s.settle = s := by
  unfold settle
  split
  · next hops => exact Or.inl (.perform hops)
  · next hpc => exact Or.inl (.deliver hpc)
  · next hpc => exact Or.inl (.readRestart hpc)
  · next hpc =>
      split_ifs with hpos
      · exact Or.inr rfl
      · exact Or.inl (.readHeader hpc hpos)

/-- Between calls the schedule is the consumer's. -/
lemma settle_of_idle (hops : s.ops = []) :
    s.settle.ops = [] ∧ ((∃ t, ConsumerStep s t) → ConsumerStep s s.settle) := by
  unfold settle
  rw [hops]
  cases hpc : s.pc with
  | loop =>
      dsimp only
      split_ifs with hpos
      · refine ⟨hops, ?_⟩
        rintro ⟨t, ht⟩
        cases ht with
        | readHeader _ hne => exact absurd hpos hne
        | readRestart hpc' => exact absurd (hpc.symm.trans hpc') (by simp)
        | deliver hpc' => exact absurd (hpc.symm.trans hpc') (by simp)
      · exact ⟨(readHeader_fields s).2.1.trans hops, fun _ => .readHeader hpc hpos⟩
  | restart => exact ⟨hops, fun _ => .readRestart hpc⟩
  | gotLen offset len => exact ⟨hops, fun _ => .deliver hpc⟩

lemma settledRun_idle (i : ℕ) : (settledRun (i + 11)).ops = [] := by
  induction i with
  | zero => decide +kernel
  | succ i ih => exact (settle_of_idle ih).1

/-- One message, accepted by the eleventh step and delivered later. -/
theorem eventually_delivered_one_message :
    ∃ j ≥ 11, [fourOf 7] <+: (settledRun j).delivered := by
  have haccepted : (settledRun 11).accepted = [fourOf 7] := by decide +kernel
  have hrun : IsRun ObservesRecent settledRun := by
    refine ⟨fun i => ?_⟩
    cases i with
    | zero =>
        exact Or.inl (.beginWrite _ 4 0 rfl (List.mem_singleton.mpr rfl)
          (show 0 - 0 + 8 < 2 ^ 64 by decide))
    | succ i => exact settle_step _
  have hfair : WeaklyFair ConsumerStep settledRun := by
    intro i henabled
    refine ⟨i + 11, by omega, ?_⟩
    exact (settle_of_idle (settledRun_idle i)).2 (henabled (i + 11) (by omega))
  obtain ⟨j, hj, hprefix⟩ :=
    eventually_delivered initialised_ringOfEight (k := 3) rfl (by decide) rfl hrun hfair 11
  exact ⟨j, hj, haccepted ▸ hprefix⟩

end drain

end Spsc

end LumbreExt
