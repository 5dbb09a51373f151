import Mathlib.Data.List.Basic
import Mathlib.Tactic.Common

/-!
# Labelled systems, simulation and fairness

Transition systems whose steps may show an event, and the two rules by which a program's system is
compared with what it is for. The module has no knowledge of any program.

* `Labelled`, `Trace` — a system, and the runs of it by the events they show; a step labelled `none`
  shows nothing.
* `Simulates`, `Simulates.trace` — if every step of one system is matched by a run of the other that
  shows the same, then every trace of the first is a trace of the second.
* `Steps`, `exists_steps_stuck` — a relation whose steps all decrease a rank comes to an end.
* `WeaklyFair`, `eventually_of_rank` — along an infinite run, a goal is reached if no step away from
  it increases a rank, some step that decreases it stays possible, and such steps are not put off
  for ever.
-/

namespace LumbreExt.Lib

/-- A transition system; a step shows an event or, labelled `none`, nothing. -/
structure Labelled (σ ε : Type*) where
  Step : σ → Option ε → σ → Prop

namespace Labelled

variable {σ τ ε : Type*}

/-- A run from one state to another that shows the given events. -/
inductive Trace (L : Labelled σ ε) : σ → List ε → σ → Prop
  | refl (s : σ) : Trace L s [] s
  | silent {s t u : σ} {es : List ε} (h : Trace L s es t) (hstep : L.Step t none u) :
      Trace L s es u
  | visible {s t u : σ} {es : List ε} {e : ε} (h : Trace L s es t)
      (hstep : L.Step t (some e) u) : Trace L s (es ++ [e]) u

variable {L : Labelled σ ε} {M : Labelled τ ε}

lemma Trace.append {s t u : σ} {es fs : List ε} (h : L.Trace s es t) (h' : L.Trace t fs u) :
    L.Trace s (es ++ fs) u := by
  induction h' with
  | refl =>
      rw [List.append_nil]
      exact h
  | silent _ hstep ih => exact ih.silent hstep
  | visible _ hstep ih =>
      rw [← List.append_assoc]
      exact ih.visible hstep

lemma Trace.of_visible {s t : σ} {e : ε} (h : L.Step s (some e) t) : L.Trace s [e] t :=
  (Trace.refl s).visible h

/-- What every step preserves holds along every trace. -/
lemma Trace.invariant {I : σ → Prop} (hI : ∀ s l s', I s → L.Step s l s' → I s') {s t : σ}
    {es : List ε} (h : L.Trace s es t) (hs : I s) : I t := by
  induction h with
  | refl => exact hs
  | silent _ hstep ih => exact hI _ _ _ ih hstep
  | visible _ hstep ih => exact hI _ _ _ ih hstep

/-- Related states stay related: every step of `L` is matched by a run of `M` that shows the
same. -/
structure Simulates (L : Labelled σ ε) (M : Labelled τ ε) (R : σ → τ → Prop) : Prop where
  silent : ∀ {s s' t}, R s t → L.Step s none s' → ∃ t', M.Trace t [] t' ∧ R s' t'
  visible : ∀ {s s' t e}, R s t → L.Step s (some e) s' → ∃ t', M.Trace t [e] t' ∧ R s' t'

/-- **Trace inclusion.** What a run of the simulated system shows, a run of the other one shows
too. -/
theorem Simulates.trace {R : σ → τ → Prop} (h : Simulates L M R) {s s' : σ} {t : τ} {es : List ε}
    (hst : R s t) (hrun : L.Trace s es s') : ∃ t', M.Trace t es t' ∧ R s' t' := by
  induction hrun with
  | refl => exact ⟨t, .refl t, hst⟩
  | silent _ hstep ih =>
      obtain ⟨t₁, htrace, hrel⟩ := ih
      obtain ⟨t₂, hmatch, hrel'⟩ := h.silent hrel hstep
      have happend := htrace.append hmatch
      rw [List.append_nil] at happend
      exact ⟨t₂, happend, hrel'⟩
  | visible _ hstep ih =>
      obtain ⟨t₁, htrace, hrel⟩ := ih
      obtain ⟨t₂, hmatch, hrel'⟩ := h.visible hrel hstep
      exact ⟨t₂, htrace.append hmatch, hrel'⟩

end Labelled

/-! ## Runs that end -/

section ranking

variable {σ : Type*} {r : σ → σ → Prop} {I : σ → Prop} {rank : σ → ℕ}

/-- A run of the given number of steps of a relation. -/
inductive Steps (r : σ → σ → Prop) : ℕ → σ → σ → Prop
  | refl (s : σ) : Steps r 0 s s
  | head {n : ℕ} {s t u : σ} (hstep : r s t) (h : Steps r n t u) : Steps r (n + 1) s u

lemma Steps.invariant (hI : ∀ s t, I s → r s t → I t) {n : ℕ} {s t : σ} (h : Steps r n s t)
    (hs : I s) : I t := by
  induction h with
  | refl => exact hs
  | head hstep _ ih => exact ih (hI _ _ hs hstep)

/-- A rank that every step decreases bounds the number of steps. -/
lemma Steps.add_rank_le (hI : ∀ s t, I s → r s t → I t)
    (hrank : ∀ s t, I s → r s t → rank t < rank s) {n : ℕ} {s t : σ} (h : Steps r n s t)
    (hs : I s) : n + rank t ≤ rank s := by
  induction h with
  | refl => exact Nat.le_of_eq (Nat.zero_add _)
  | head hstep _ ih =>
      have hrest := ih (hI _ _ hs hstep)
      have hfirst := hrank _ _ hs hstep
      omega

/-- With a rank that every step decreases, some run ends where no step is possible. -/
lemma exists_steps_stuck (hI : ∀ s t, I s → r s t → I t)
    (hrank : ∀ s t, I s → r s t → rank t < rank s) {s : σ} (hs : I s) :
    ∃ n t, Steps r n s t ∧ ∀ u, ¬ r t u := by
  induction hn : rank s using Nat.strongRecOn generalizing s with
  | _ m ih =>
      by_cases hstuck : ∃ t, r s t
      · obtain ⟨t, hstep⟩ := hstuck
        have hless := hrank s t hs hstep
        obtain ⟨n, u, hsteps, hu⟩ := ih (rank t) (by omega) (hI s t hs hstep) rfl
        exact ⟨n + 1, u, .head hstep hsteps, hu⟩
      · exact ⟨0, s, .refl s, fun u hu => hstuck ⟨u, hu⟩⟩

end ranking

/-! ## Infinite runs -/

section fairness

variable {σ : Type*} {Helpful : σ → σ → Prop} {run : ℕ → σ}

/-- A kind of step that stays possible from some moment on is taken at some later moment. -/
def WeaklyFair (Helpful : σ → σ → Prop) (run : ℕ → σ) : Prop :=
  ∀ i, (∀ j ≥ i, ∃ t, Helpful (run j) t) → ∃ j ≥ i, Helpful (run j) (run (j + 1))

/-- What the step at every later moment preserves holds at every later moment. -/
lemma forall_ge_of_succ {P : ℕ → Prop} {i : ℕ} (hi : P i) (h : ∀ j ≥ i, P j → P (j + 1)) {j : ℕ}
    (hij : i ≤ j) : P j := by
  induction hij with
  | refl => exact hi
  | step hle ih => exact h _ hle ih

/-- **The rank rule.** From some moment on and away from the goal, no step increases the rank, a
helpful step is possible, and a helpful step decreases the rank. Then a run that is fair to the
helpful steps reaches the goal. -/
theorem eventually_of_rank (Goal : σ → Prop) (rank : σ → ℕ) {i : ℕ}
    (hle : ∀ j ≥ i, ¬ Goal (run j) → rank (run (j + 1)) ≤ rank (run j))
    (hlt : ∀ j ≥ i, ¬ Goal (run j) → Helpful (run j) (run (j + 1)) →
      rank (run (j + 1)) < rank (run j))
    (henabled : ∀ j ≥ i, ¬ Goal (run j) → ∃ t, Helpful (run j) t)
    (hfair : WeaklyFair Helpful run) : ∃ j ≥ i, Goal (run j) := by
  -- on the rank at the moment we start from
  induction hn : rank (run i) using Nat.strongRecOn generalizing i with
  | _ n ih =>
      by_contra hnone
      have hnever : ∀ j ≥ i, ¬ Goal (run j) := fun j hj hgoal => hnone ⟨j, hj, hgoal⟩
      obtain ⟨j, hj, hhelp⟩ := hfair i fun j hj => henabled j hj (hnever j hj)
      have hmono : rank (run j) ≤ rank (run i) :=
        forall_ge_of_succ (P := fun j => rank (run j) ≤ rank (run i)) (Nat.le_refl _)
          (fun m hm hP => Nat.le_trans (hle m hm (hnever m hm)) hP) hj
      have hless := hlt j hj (hnever j hj) hhelp
      have hlater : ∀ m ≥ j + 1, m ≥ i := fun m hm => by omega
      obtain ⟨m, hm, hgoal⟩ := ih (rank (run (j + 1))) (by omega)
        (fun m hm => hle m (hlater m hm)) (fun m hm => hlt m (hlater m hm))
        (fun m hm => henabled m (hlater m hm)) rfl
      exact hnone ⟨m, hlater m hm, hgoal⟩

end fairness

end LumbreExt.Lib
