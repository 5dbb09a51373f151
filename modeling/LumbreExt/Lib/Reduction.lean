import Mathlib.Logic.Relation
import Mathlib.Tactic.Common

/-!
# Steps that commute and blocks that are not interrupted

Two parties take turns. One of them works in blocks: it leaves an idle state, takes some inner
steps, and is idle again. If the other party's steps can be taken in front of every inner step that
does not end a block, then every run between idle states is a run in which no block is interrupted.
The module has no knowledge of any program.

* `Inside` — the inner steps of a block that has not ended.
* `BlockStep` — a whole block, or a step of the other party, between idle states.
* `Inside.move` — a step of the other party moves to the front of a block.
* `exists_blocks` — the reduction of a run.
-/

namespace LumbreExt.Lib

section reduction

variable {σ : Type*} (Inner Outer : σ → σ → Prop) (Idle : σ → Prop)

/-- Inner steps, none of which ends the block. -/
def Inside : σ → σ → Prop := Relation.ReflTransGen fun s t => Inner s t ∧ ¬ Idle t

/-- Between idle states: a step of the other party, or a block without interruption. -/
inductive BlockStep : σ → σ → Prop
  | outer {s t : σ} (hidle : Idle s) (hstep : Outer s t) : BlockStep s t
  | block {s t u : σ} (hidle : Idle s) (hinside : Inside Inner Idle s t) (hlast : Inner t u)
      (hends : Idle u) : BlockStep s u

variable {Inner Outer Idle} {I : σ → Prop}

lemma Inside.invariant (hinner : ∀ s t, I s → Inner s t → I t) {s t : σ}
    (h : Inside Inner Idle s t) (hs : I s) : I t := by
  induction h with
  | refl => exact hs
  | tail _ hstep ih => exact hinner _ _ ih hstep.1

/-- A block that has not begun. -/
lemma Inside.eq_of_idle {s t : σ} (h : Inside Inner Idle s t) (hidle : Idle t) : t = s := by
  cases h with
  | refl => rfl
  | tail _ hstep => exact absurd hidle hstep.2

/-- What every step preserves, whole blocks preserve. -/
lemma BlockStep.invariant (hinner : ∀ s t, I s → Inner s t → I t)
    (houter : ∀ s t, I s → Outer s t → I t) {s t : σ} (h : BlockStep Inner Outer Idle s t)
    (hs : I s) : I t := by
  cases h with
  | outer _ hstep => exact houter _ _ hs hstep
  | block _ hinside hlast _ => exact hinner _ _ (hinside.invariant hinner hs) hlast

variable (hinner : ∀ s t, I s → Inner s t → I t) (houter : ∀ s t, I s → Outer s t → I t)
  (hidle : ∀ s t, Outer s t → (Idle s ↔ Idle t))
  (hmove : ∀ s t u, I s → Inner s t → ¬ Idle t → Outer t u → ∃ t', Outer s t' ∧ Inner t' u)

include hinner hidle hmove

/-- **A step of the other party moves to the front of the block it interrupts.** -/
lemma Inside.move {s t u : σ} (h : Inside Inner Idle s t) (hs : I s) (hstep : Outer t u) :
    ∃ t', Outer s t' ∧ Inside Inner Idle t' u := by
  induction h generalizing u with
  | refl => exact ⟨u, hstep, .refl⟩
  | tail hinside hlast ih =>
      have hI := Inside.invariant hinner hinside hs
      obtain ⟨v', hfirst, hlast'⟩ := hmove _ _ _ hI hlast.1 hlast.2 hstep
      obtain ⟨t', hstep', hinside'⟩ := ih hfirst
      exact ⟨t', hstep', hinside'.tail ⟨hlast', mt (hidle _ _ hstep).mpr hlast.2⟩⟩

include houter

/-- **Reduction.** A run from an idle state is a run of whole blocks and the inner steps of one that
has not ended. -/
theorem exists_blocks {s t : σ} (h : Relation.ReflTransGen (fun s t => Inner s t ∨ Outer s t) s t)
    (hs : I s) (hstart : Idle s) :
    ∃ u, Relation.ReflTransGen (BlockStep Inner Outer Idle) s u ∧ Idle u ∧
      Inside Inner Idle u t ∧ I u := by
  induction h with
  | refl => exact ⟨s, .refl, hstart, .refl, hs⟩
  | @tail t v _ hstep ih =>
      obtain ⟨u, hblocks, hu, hinside, hI⟩ := ih
      rcases hstep with hstep | hstep
      · by_cases hends : Idle v
        · refine ⟨v, hblocks.tail (.block hu hinside hstep hends), hends, .refl, ?_⟩
          exact hinner _ _ (hinside.invariant hinner hI) hstep
        · exact ⟨u, hblocks, hu, hinside.tail ⟨hstep, hends⟩, hI⟩
      · obtain ⟨u', hfirst, hinside'⟩ := hinside.move hinner hidle hmove hI hstep
        exact ⟨u', hblocks.tail (.outer hu hfirst), (hidle _ _ hfirst).mp hu, hinside',
          houter _ _ hI hfirst⟩

end reduction

end LumbreExt.Lib
