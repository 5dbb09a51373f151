import Mathlib.Logic.Relation
import Mathlib.Order.Basic

/-!
# Intervals on a time line

Intervals that are opened and closed as calls on a stack, and may be abandoned: what can be drawn of
them without a crossing. The module has no knowledge of any program.

* `LiesIn`, `Nests` — an interval lies inside another one; or it is over before that one starts.
* `Timeline`, `Timeline.Step` — the present, the starts so far, the intervals that are open, and those
  that have been closed.
* `Timeline.WellNested.steps` — the closed intervals never cross, and starts are in order.
-/

namespace LumbreExt.Lib

/-- The interval lies inside another one. -/
def LiesIn {τ : Type*} [LE τ] (a b : τ × τ) : Prop := b.1 ≤ a.1 ∧ a.2 ≤ b.2

/-- The interval is over before another one starts, or lies inside it. -/
def Nests {τ : Type*} [LE τ] (a b : τ × τ) : Prop := a.2 ≤ b.1 ∨ LiesIn a b

/-- A time line. -/
structure Timeline (τ : Type*) where
  now : τ
  /-- The times at which an interval has been opened, in order. -/
  starts : List τ
  /-- The starts of the open intervals, the innermost first. -/
  opened : List τ
  /-- The closed intervals, in the order in which they were closed. -/
  closed : List (τ × τ)

namespace Timeline

variable {τ : Type*} [Preorder τ]

/-- What happens on a time line. -/
inductive Step : Timeline τ → Timeline τ → Prop
  /-- Time passes. -/
  | passes {t : Timeline τ} {now : τ} (hle : t.now ≤ now) : Step t { t with now := now }
  /-- An interval is opened. -/
  | starts (t : Timeline τ) :
      Step t { t with starts := t.starts ++ [t.now], opened := t.now :: t.opened }
  /-- The innermost interval is closed. -/
  | stops {t : Timeline τ} {a : τ} {rest : List τ} (hopened : t.opened = a :: rest) :
      Step t { t with opened := rest, closed := t.closed ++ [(a, t.now)] }
  /-- Some of the open intervals are given up. -/
  | abandons {t : Timeline τ} {rest : List τ} (hrest : rest.Sublist t.opened) :
      Step t { t with opened := rest }
  /-- A new line is begun. -/
  | restarts (t : Timeline τ) (now : τ) : Step t ⟨now, [], [], []⟩

/-- **Nothing crosses on the time line.** -/
structure WellNested (t : Timeline τ) : Prop where
  starts : t.starts.Pairwise (· ≤ ·)
  starts_le : ∀ a ∈ t.starts, a ≤ t.now
  opened : t.opened.Pairwise (· ≥ ·)
  opened_le : ∀ a ∈ t.opened, a ≤ t.now
  closed : t.closed.Pairwise Nests
  closed_le : ∀ c ∈ t.closed, c.1 ≤ c.2 ∧ c.2 ≤ t.now
  /-- What is closed is over before an open interval starts, or was started in it. -/
  between : ∀ c ∈ t.closed, ∀ a ∈ t.opened, c.2 ≤ a ∨ a ≤ c.1

variable {t t' : Timeline τ}

lemma wellNested_restart (now : τ) : WellNested (⟨now, [], [], []⟩ : Timeline τ) where
  starts := .nil
  starts_le := by simp
  opened := .nil
  opened_le := by simp
  closed := .nil
  closed_le := by simp
  between := by simp

/-- The innermost interval is the one opened last, so all that is open surrounds it. -/
lemma WellNested.stops (h : t.WellNested) {a : τ} {rest : List τ} (hopened : t.opened = a :: rest) :
    WellNested { t with opened := rest, closed := t.closed ++ [(a, t.now)] } := by
  have hstack := h.opened
  rw [hopened, List.pairwise_cons] at hstack
  have hmem : a ∈ t.opened := hopened ▸ List.mem_cons_self
  have hrest : ∀ b ∈ rest, b ∈ t.opened := fun b hb => hopened ▸ List.mem_cons_of_mem a hb
  exact {
    starts := h.starts
    starts_le := h.starts_le
    opened := hstack.2
    opened_le := fun b hb => h.opened_le b (hrest b hb)
    closed := by
      rw [List.pairwise_append]
      refine ⟨h.closed, List.pairwise_singleton _ _, ?_⟩
      intro c hc d hd
      rw [List.mem_singleton.mp hd]
      exact (h.between c hc a hmem).imp_right fun hle => ⟨hle, (h.closed_le c hc).2⟩
    closed_le := by
      intro c hc
      rcases List.mem_append.mp hc with hc | hc
      · exact h.closed_le c hc
      · rw [List.mem_singleton.mp hc]
        exact ⟨h.opened_le a hmem, le_rfl⟩
    between := by
      intro c hc b hb
      rcases List.mem_append.mp hc with hc | hc
      · exact h.between c hc b (hrest b hb)
      · rw [List.mem_singleton.mp hc]
        exact Or.inr (hstack.1 b hb) }

/-- What is opened now starts behind everything else. -/
lemma WellNested.start (h : t.WellNested) :
    WellNested { t with starts := t.starts ++ [t.now], opened := t.now :: t.opened } where
  starts := by
    rw [List.pairwise_append]
    refine ⟨h.starts, List.pairwise_singleton _ _, ?_⟩
    intro a ha b hb
    rw [List.mem_singleton.mp hb]
    exact h.starts_le a ha
  starts_le := by
    intro a ha
    rcases List.mem_append.mp ha with ha | ha
    · exact h.starts_le a ha
    · rw [List.mem_singleton.mp ha]
  opened := List.pairwise_cons.mpr ⟨h.opened_le, h.opened⟩
  opened_le := by
    intro a ha
    rcases List.mem_cons.mp ha with rfl | ha
    · exact le_rfl
    · exact h.opened_le a ha
  closed := h.closed
  closed_le := h.closed_le
  between := by
    intro c hc a ha
    rcases List.mem_cons.mp ha with rfl | ha
    · exact Or.inl (h.closed_le c hc).2
    · exact h.between c hc a ha

lemma WellNested.step (h : t.WellNested) (hstep : t.Step t') : t'.WellNested := by
  cases hstep with
  | passes hle =>
      exact ⟨h.starts, fun a ha => (h.starts_le a ha).trans hle, h.opened,
        fun a ha => (h.opened_le a ha).trans hle, h.closed,
        fun c hc => ⟨(h.closed_le c hc).1, (h.closed_le c hc).2.trans hle⟩, h.between⟩
  | starts => exact h.start
  | stops hopened => exact h.stops hopened
  | abandons hrest =>
      exact ⟨h.starts, h.starts_le, h.opened.sublist hrest,
        fun a ha => h.opened_le a (hrest.subset ha), h.closed, h.closed_le,
        fun c hc a ha => h.between c hc a (hrest.subset ha)⟩
  | restarts now => exact wellNested_restart now

/-- **Nothing ever crosses.** -/
theorem WellNested.steps (h : t.WellNested) (hsteps : Relation.ReflTransGen Step t t') :
    t'.WellNested := by
  induction hsteps with
  | refl => exact h
  | tail _ hstep ih => exact ih.step hstep

end Timeline

/-- An interval that starts behind another one and is over before it, or lies inside it, lies inside
it in any case. -/
lemma Nests.liesIn {τ : Type*} [Preorder τ] {a b : τ × τ} (h : Nests a b) (hstart : b.1 ≤ a.1)
    (hb : b.1 ≤ b.2) : LiesIn a b :=
  h.elim (fun hle => ⟨hstart, hle.trans hb⟩) id

end LumbreExt.Lib
