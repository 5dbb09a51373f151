import Mathlib.Tactic.Common

/-!
# Deterministic machines and their runs

A transition system whose steps are named by events, without knowledge of any program.

* `Machine` — the starting states, and what an event does; an event need not be possible in every
  state.
* `run`, `AllSteps` — the state at the end of a sequence of events, and a condition on every state
  before a step of it together with the event.
* `Reachable` — the states of the runs from a starting state.
* `Reachable.invariant`, `AllSteps.of_invariant` — the two induction rules: an invariant holds in
  every reachable state; and if the invariant only survives steps that meet a condition, it holds
  along the runs whose steps all do.
* `run_map_congr` — the rule for two runs of which the same is seen.
-/

namespace LumbreExt.Lib

/-- A deterministic machine; `step s e` is `none` when `e` cannot happen in `s`. -/
structure Machine (σ ε : Type*) where
  Start : σ → Prop
  step : σ → ε → Option σ

namespace Machine

variable {σ ε : Type*} (M : Machine σ ε)

/-- The state after a sequence of events, if all of them can happen. -/
def run : σ → List ε → Option σ
  | s, [] => some s
  | s, e :: es => (M.step s e).bind fun s' => run s' es

/-- The events can happen one after the other, and each meets `P` in the state before it. -/
def AllSteps (P : σ → ε → Prop) : σ → List ε → Prop
  | _, [] => True
  | s, e :: es => P s e ∧ ∃ s', M.step s e = some s' ∧ AllSteps P s' es

/-- The states of the runs from a starting state. -/
inductive Reachable : σ → Prop
  | start {s : σ} (h : M.Start s) : Reachable s
  | step {s s' : σ} {e : ε} (h : Reachable s) (hstep : M.step s e = some s') : Reachable s'

variable {M}

@[simp] lemma run_nil (s : σ) : M.run s [] = some s := rfl

lemma run_cons (s : σ) (e : ε) (es : List ε) :
    M.run s (e :: es) = (M.step s e).bind fun s' => M.run s' es := rfl

lemma run_append (s : σ) (es fs : List ε) :
    M.run s (es ++ fs) = (M.run s es).bind fun s' => M.run s' fs := by
  induction es generalizing s with
  | nil => rfl
  | cons e es ih =>
      rw [List.cons_append, run_cons, run_cons, Option.bind_assoc]
      congr 1
      funext s'
      exact ih s'

/-- **The invariant rule.** -/
theorem Reachable.invariant {I : σ → Prop} (hstart : ∀ s, M.Start s → I s)
    (hstep : ∀ s e s', I s → M.step s e = some s' → I s') {s : σ} (h : M.Reachable s) : I s := by
  induction h with
  | start h => exact hstart _ h
  | step _ hs ih => exact hstep _ _ _ ih hs

/-- The states of a run from a reachable state are reachable. -/
lemma Reachable.run {s s' : σ} {es : List ε} (h : M.Reachable s) (hrun : M.run s es = some s') :
    M.Reachable s' := by
  induction es generalizing s with
  | nil =>
      rw [run_nil, Option.some.injEq] at hrun
      exact hrun ▸ h
  | cons e es ih =>
      obtain ⟨s₁, hs₁, hrest⟩ := Option.bind_eq_some_iff.mp hrun
      exact ih (h.step hs₁) hrest

/-- What every step preserves holds at the end of a run. -/
lemma run_invariant {I : σ → Prop} (hstep : ∀ s e s', I s → M.step s e = some s' → I s') {s s' : σ}
    {es : List ε} (hs : I s) (hrun : M.run s es = some s') : I s' := by
  induction es generalizing s with
  | nil =>
      rw [run_nil, Option.some.injEq] at hrun
      exact hrun ▸ hs
  | cons e es ih =>
      obtain ⟨s₁, hs₁, hrest⟩ := Option.bind_eq_some_iff.mp hrun
      exact ih (hstep s e s₁ hs hs₁) hrest

/-- **The rule for two runs.** If what is seen of a step depends on what is seen of the state and of
the event only, then so does what is seen of a run. -/
theorem run_map_congr {τ φ : Type*} {view : σ → τ} {face : ε → φ}
    (hstep : ∀ s t e f, view s = view t → face e = face f →
      (M.step s e).map view = (M.step t f).map view)
    {s t : σ} {es fs : List ε} (hst : view s = view t) (hef : es.map face = fs.map face) :
    (M.run s es).map view = (M.run t fs).map view := by
  induction es generalizing s t fs with
  | nil =>
      obtain rfl := List.map_eq_nil_iff.mp hef.symm
      exact congrArg some hst
  | cons e es ih =>
      obtain ⟨f, fs, rfl, hf, hfs⟩ := List.map_eq_cons_iff.mp hef.symm
      have hone := hstep s t e f hst hf.symm
      rw [run_cons, run_cons]
      cases hs : M.step s e with
      | none =>
          rw [hs, Option.map_none] at hone
          rw [Option.map_eq_none_iff.mp hone.symm]
          rfl
      | some s₁ =>
          rw [hs, Option.map_some] at hone
          obtain ⟨t₁, ht, hview⟩ := Option.map_eq_some_iff.mp hone.symm
          rw [ht]
          exact ih hview.symm hfs.symm

/-- A condition on all steps, split between the two parts of a run. -/
lemma allSteps_append {P : σ → ε → Prop} {s : σ} {es fs : List ε} :
    M.AllSteps P s (es ++ fs) ↔
      M.AllSteps P s es ∧ ∃ s', M.run s es = some s' ∧ M.AllSteps P s' fs := by
  induction es generalizing s with
  | nil => simp [AllSteps]
  | cons e es ih =>
      simp only [List.cons_append, AllSteps, run_cons, ih]
      constructor
      · rintro ⟨hP, s₁, hs₁, hes, s', hrun, hfs⟩
        refine ⟨⟨hP, s₁, hs₁, hes⟩, s', ?_, hfs⟩
        rw [hs₁]
        exact hrun
      · rintro ⟨⟨hP, s₁, hs₁, hes⟩, s', hrun, hfs⟩
        rw [hs₁] at hrun
        exact ⟨hP, s₁, hs₁, hes, s', hrun, hfs⟩

instance decidableAllSteps {P : σ → ε → Prop} [∀ s e, Decidable (P s e)] :
    ∀ (s : σ) (es : List ε), Decidable (M.AllSteps P s es)
  | _, [] => isTrue trivial
  | s, e :: es =>
      match hstep : M.step s e with
      | none => isFalse fun h => by
          obtain ⟨_, s', hs', _⟩ := h
          rw [hstep] at hs'
          exact absurd hs' (Option.some_ne_none _).symm
      | some s₁ =>
          have : Decidable (M.AllSteps P s₁ es) := decidableAllSteps s₁ es
          decidable_of_iff (P s e ∧ M.AllSteps P s₁ es) (by simp [AllSteps, hstep])

/-- **The rule for conditional runs.** An invariant that every step meeting `C` preserves, and that
together with `C` gives `P`, gives `P` at every step of a run whose steps all meet `C`. -/
theorem AllSteps.of_invariant {I : σ → Prop} {C P : σ → ε → Prop}
    (hinv : ∀ s e s', I s → C s e → M.step s e = some s' → I s')
    (hP : ∀ s e, I s → C s e → P s e) {s : σ} {es : List ε} (hI : I s)
    (h : M.AllSteps C s es) : M.AllSteps P s es := by
  induction es generalizing s with
  | nil => trivial
  | cons e es ih =>
      obtain ⟨hC, s', hs', hrest⟩ := h
      exact ⟨hP s e hI hC, s', hs', ih (hinv s e s' hI hC hs') hrest⟩

/-- Such an invariant holds at the end of the run. -/
lemma AllSteps.run_invariant {I : σ → Prop} {C : σ → ε → Prop}
    (hinv : ∀ s e s', I s → C s e → M.step s e = some s' → I s') {s s' : σ} {es : List ε} (hI : I s)
    (h : M.AllSteps C s es) (hrun : M.run s es = some s') : I s' := by
  induction es generalizing s with
  | nil => exact Option.some_inj.mp hrun ▸ hI
  | cons e es ih =>
      obtain ⟨hC, s₁, hs₁, hrest⟩ := h
      obtain ⟨_, hs₁', hrun⟩ := Option.bind_eq_some_iff.mp hrun
      obtain rfl := Option.some_inj.mp (hs₁.symm.trans hs₁')
      exact ih (hinv s e s₁ hI hC hs₁) hrest hrun

end Machine

end LumbreExt.Lib
