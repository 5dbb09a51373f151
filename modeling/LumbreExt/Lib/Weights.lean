import LumbreExt.Lib.Forest

/-!
# Weighted forests

What of the weight of a node is its own when the weights of its children are taken off, as the time
spent in a call itself. The module has no knowledge of any program.

* `weight`, `own` — the weight of the trees of a forest, and what each node has of its own.
* `Bounded` — no node weighs less than its children together.
* `Bounded.sum_own` — then the nodes share out the weight of the forest.
-/

namespace LumbreExt.Lib.Forest

variable {α : Type*} (w : α → ℕ)

/-- The weight of the roots. -/
def weight : Forest α → ℕ
  | nil => 0
  | node a _ rest => w a + rest.weight

/-- What the nodes have of their own, in preorder. -/
def own : Forest α → List ℕ
  | nil => []
  | node a children rest => (w a - children.weight w) :: (children.own ++ rest.own)

/-- No node weighs less than its children together. -/
def Bounded : Forest α → Prop
  | nil => True
  | node a children rest => children.weight w ≤ w a ∧ children.Bounded ∧ rest.Bounded

variable {w}

lemma weight_append (f g : Forest α) : (f.append g).weight w = f.weight w + g.weight w := by
  induction f with
  | nil => exact (Nat.zero_add _).symm
  | node a children rest _ ih => rw [node_append, weight, weight, ih, Nat.add_assoc]

lemma bounded_append {f g : Forest α} :
    (f.append g).Bounded w ↔ f.Bounded w ∧ g.Bounded w := by
  induction f with
  | nil => simp [Bounded]
  | node a children rest _ ih => simp only [node_append, Bounded, ih, and_assoc]

/-- **The nodes share out the weight of the forest.** -/
theorem Bounded.sum_own {f : Forest α} (h : f.Bounded w) : (f.own w).sum = f.weight w := by
  induction f with
  | nil => rfl
  | node a children rest ihc ihr =>
      obtain ⟨hle, hchildren, hrest⟩ := h
      rw [own, List.sum_cons, List.sum_append, ihc hchildren, ihr hrest, weight]
      omega

end LumbreExt.Lib.Forest
