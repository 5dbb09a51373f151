import Mathlib.Data.List.Basic
import Mathlib.Algebra.Ring.Nat
import Mathlib.Tactic.Common

/-!
# Ordered forests

Finite forests of labelled nodes with ordered children, as calls form them: the children of a node
are the calls made inside it. The module has no knowledge of any program.

* `preorder`, `postorder` — the labels by the moment a call is entered, and by the moment it
  returns.
* `Parented` — every node names its parent: the roots name a given value, and the children of a node
  the name of that node.
* `UpClosed` — a set of labels that contains every node above a node in it.
-/

namespace LumbreExt.Lib

/-- A forest: empty, or a first tree, given by its root and the forest below it, and the other
trees. -/
inductive Forest (α : Type*)
  | nil
  | node (root : α) (children rest : Forest α)

namespace Forest

variable {α κ : Type*}

/-- The number of nodes. -/
def size : Forest α → ℕ
  | nil => 0
  | node _ children rest => children.size + 1 + rest.size

/-- The labels, each before those below it. -/
def preorder : Forest α → List α
  | nil => []
  | node a children rest => a :: children.preorder ++ rest.preorder

/-- The labels, each after those below it. -/
def postorder : Forest α → List α
  | nil => []
  | node a children rest => children.postorder ++ a :: rest.postorder

/-- Two forests side by side. -/
def append : Forest α → Forest α → Forest α
  | nil, g => g
  | node a children rest, g => node a children (rest.append g)

/-- Every node names its parent: `parent` of a root is `p`, and `parent` of a child of `a` is
`name a`. -/
def Parented (name parent : α → κ) : κ → Forest α → Prop
  | _, nil => True
  | p, node a children rest =>
      parent a = p ∧ children.Parented name parent (name a) ∧ rest.Parented name parent p

/-- A node above a node in `P` is in `P`. -/
def UpClosed (P : α → Prop) : Forest α → Prop
  | nil => True
  | node a children rest =>
      ((∃ b ∈ children.preorder, P b) → P a) ∧ children.UpClosed P ∧ rest.UpClosed P

@[simp] lemma preorder_nil : (nil : Forest α).preorder = [] := rfl

@[simp] lemma preorder_node (a : α) (children rest : Forest α) :
    (node a children rest).preorder = a :: (children.preorder ++ rest.preorder) := rfl

@[simp] lemma postorder_nil : (nil : Forest α).postorder = [] := rfl

@[simp] lemma postorder_node (a : α) (children rest : Forest α) :
    (node a children rest).postorder = children.postorder ++ a :: rest.postorder := rfl

@[simp] lemma nil_append (g : Forest α) : nil.append g = g := rfl

@[simp] lemma node_append (a : α) (children rest g : Forest α) :
    (node a children rest).append g = node a children (rest.append g) := rfl

lemma append_assoc (f g h : Forest α) : (f.append g).append h = f.append (g.append h) := by
  induction f with
  | nil => rfl
  | node a children rest _ ih => rw [node_append, node_append, node_append, ih]

lemma size_append (f g : Forest α) : (f.append g).size = f.size + g.size := by
  induction f with
  | nil => rw [nil_append, size, Nat.zero_add]
  | node a children rest _ ih =>
      rw [node_append, size, size, ih]
      omega

lemma preorder_append (f g : Forest α) :
    (f.append g).preorder = f.preorder ++ g.preorder := by
  induction f with
  | nil => rfl
  | node a children rest _ ih => simp [ih]

lemma postorder_append (f g : Forest α) :
    (f.append g).postorder = f.postorder ++ g.postorder := by
  induction f with
  | nil => rfl
  | node a children rest _ ih => simp [ih]

lemma parented_append {name parent : α → κ} {p : κ} {f g : Forest α} :
    (f.append g).Parented name parent p ↔ f.Parented name parent p ∧ g.Parented name parent p := by
  induction f with
  | nil => simp [Parented]
  | node a children rest _ ih => simp only [node_append, Parented, ih, and_assoc]

/-- The parent that a node of a parented forest names is that of the roots, or a node. -/
lemma Parented.parent_mem {name parent : α → κ} {p : κ} {f : Forest α}
    (h : f.Parented name parent p) {a : α} (ha : a ∈ f.preorder) :
    parent a = p ∨ ∃ b ∈ f.preorder, parent a = name b := by
  induction f generalizing p with
  | nil => exact absurd ha List.not_mem_nil
  | node b children rest ihc ihr =>
      obtain ⟨hb, hchildren, hrest⟩ := h
      rw [preorder_node, List.mem_cons, List.mem_append] at ha
      rcases ha with rfl | ha | ha
      · exact Or.inl hb
      · refine Or.inr ?_
        rcases ihc hchildren ha with heq | ⟨c, hc, heq⟩
        · exact ⟨b, List.mem_cons_self, heq⟩
        · exact ⟨c, List.mem_cons_of_mem b (List.mem_append_left _ hc), heq⟩
      · rcases ihr hrest ha with heq | ⟨c, hc, heq⟩
        · exact Or.inl heq
        · exact Or.inr ⟨c, List.mem_cons_of_mem b (List.mem_append_right _ hc), heq⟩

lemma upClosed_append {P : α → Prop} {f g : Forest α} :
    (f.append g).UpClosed P ↔ f.UpClosed P ∧ g.UpClosed P := by
  induction f with
  | nil => simp [UpClosed]
  | node a children rest _ ih => simp only [node_append, UpClosed, ih, and_assoc]

end Forest

end LumbreExt.Lib
