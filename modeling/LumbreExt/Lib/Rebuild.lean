import LumbreExt.Lib.Forest
import Mathlib.Data.List.Induction
import Mathlib.Data.List.Nodup

/-!
# Forests from their postorder

A forest whose nodes name their parents can be read back from its labels in postorder, as a consumer
of finished calls sees them. The module has no knowledge of any program.

* `map`, `prune`, `contract` — other labels; without the branches below the nodes that are not in a
  set; and without these nodes alone, what is below them moving up.
* `postorder_prune` — if a set contains every node above a node in it, leaving out the other nodes
  cuts branches, and no more.
* `attach`, `rebuild` — a node takes the trees that name it as their parent.
* `rebuild_postorder` — of the postorder of a forest with distinct names this makes the forest again.
* `rebuild_perm`, `rebuild_linked`, `rebuild_roots` — whatever labels there are, each of them is in
  the forest once, every edge is one the child names, and a root is a label whose parent is missing.
-/

namespace LumbreExt.Lib.Forest

variable {α β κ : Type*}

/-! ## Other labels -/

/-- The forest with other labels. -/
def map (g : α → β) : Forest α → Forest β
  | nil => nil
  | node a children rest => node (g a) (children.map g) (rest.map g)

lemma map_append (g : α → β) (f f' : Forest α) :
    (f.append f').map g = (f.map g).append (f'.map g) := by
  induction f with
  | nil => rfl
  | node a children rest _ ih => exact congrArg (node (g a) (children.map g)) ih

lemma size_map (g : α → β) (f : Forest α) : (f.map g).size = f.size := by
  induction f with
  | nil => rfl
  | node a children rest ihc ihr => rw [map, size, size, ihc, ihr]

lemma map_map {γ : Type*} (g : α → β) (h : β → γ) (f : Forest α) :
    (f.map g).map h = f.map fun a => h (g a) := by
  induction f with
  | nil => rfl
  | node a children rest ihc ihr => rw [map, map, map, ihc, ihr]

lemma map_congr {g h : α → β} {f : Forest α} (heq : ∀ a ∈ f.preorder, g a = h a) :
    f.map g = f.map h := by
  induction f with
  | nil => rfl
  | node a children rest ihc ihr =>
      have hinner := ihc fun b hb => heq b (List.mem_cons_of_mem a (List.mem_append_left _ hb))
      have hbehind := ihr fun b hb => heq b (List.mem_cons_of_mem a (List.mem_append_right _ hb))
      rw [map, map, heq a List.mem_cons_self, hinner, hbehind]

@[simp] lemma preorder_map (g : α → β) (f : Forest α) :
    (f.map g).preorder = f.preorder.map g := by
  induction f with
  | nil => rfl
  | node a children rest ihc ihr => simp [map, ihc, ihr]

@[simp] lemma postorder_map (g : α → β) (f : Forest α) :
    (f.map g).postorder = f.postorder.map g := by
  induction f with
  | nil => rfl
  | node a children rest ihc ihr => simp [map, ihc, ihr]

lemma parented_map {name parent : β → κ} {g : α → β} {p : κ} {f : Forest α} :
    (f.map g).Parented name parent p ↔
      f.Parented (fun a => name (g a)) (fun a => parent (g a)) p := by
  induction f generalizing p with
  | nil => exact Iff.rfl
  | node a children rest ihc ihr => simp only [map, Parented, ihc, ihr]

/-- Names can be given in other terms. -/
lemma Parented.comp {κ' : Type*} {name parent : α → κ} {name' parent' : α → κ'} {p : κ}
    {f : Forest α} (j : κ → κ') (hname : ∀ a ∈ f.preorder, name' a = j (name a))
    (hparent : ∀ a ∈ f.preorder, parent' a = j (parent a)) (h : f.Parented name parent p) :
    f.Parented name' parent' (j p) := by
  induction f generalizing p with
  | nil => trivial
  | node a children rest ihc ihr =>
      obtain ⟨ha, hchildren, hrest⟩ := h
      have hinner := ihc
        (fun b hb => hname b (List.mem_cons_of_mem a (List.mem_append_left _ hb)))
        (fun b hb => hparent b (List.mem_cons_of_mem a (List.mem_append_left _ hb))) hchildren
      have hbehind := ihr
        (fun b hb => hname b (List.mem_cons_of_mem a (List.mem_append_right _ hb)))
        (fun b hb => hparent b (List.mem_cons_of_mem a (List.mem_append_right _ hb))) hrest
      refine ⟨?_, ?_, hbehind⟩
      · rw [hparent a List.mem_cons_self, ha]
      · rw [hname a List.mem_cons_self]
        exact hinner

lemma mem_postorder {a : α} {f : Forest α} : a ∈ f.postorder ↔ a ∈ f.preorder := by
  induction f with
  | nil => exact Iff.rfl
  | node b children rest ihc ihr =>
      simp only [postorder_node, preorder_node, List.mem_append, List.mem_cons, ihc, ihr]
      tauto

/-! ## Without some branches -/

lemma upClosed_of_forall {P : α → Prop} {f : Forest α} (h : ∀ a ∈ f.preorder, P a) :
    f.UpClosed P := by
  induction f with
  | nil => trivial
  | node a children rest ihc ihr =>
      have hinner := ihc fun b hb => h b (List.mem_cons_of_mem a (List.mem_append_left _ hb))
      have hbehind := ihr fun b hb => h b (List.mem_cons_of_mem a (List.mem_append_right _ hb))
      exact ⟨fun _ => h a List.mem_cons_self, hinner, hbehind⟩

section

variable (P : α → Prop) [DecidablePred P]

/-- The forest without the branches of the nodes that are not in `P`. -/
def prune : Forest α → Forest α
  | nil => nil
  | node a children rest =>
      if P a then node a children.prune rest.prune else rest.prune

lemma preorder_prune_sublist (f : Forest α) : (f.prune P).preorder.Sublist f.preorder := by
  induction f with
  | nil => exact List.Sublist.refl _
  | node a children rest ihc ihr =>
      unfold prune
      split_ifs
      · exact (ihc.append ihr).cons_cons a
      · exact (ihr.trans (List.sublist_append_right _ _)).cons a

variable {P}

/-- Nothing is cut from a forest in `P`. -/
lemma prune_eq_self {f : Forest α} (h : ∀ a ∈ f.preorder, P a) : f.prune P = f := by
  induction f with
  | nil => rfl
  | node a children rest ihc ihr =>
      have hinner := ihc fun b hb => h b (List.mem_cons_of_mem a (List.mem_append_left _ hb))
      have hbehind := ihr fun b hb => h b (List.mem_cons_of_mem a (List.mem_append_right _ hb))
      rw [prune, if_pos (h a List.mem_cons_self), hinner, hbehind]

lemma Parented.prune {name parent : α → κ} {p : κ} {f : Forest α}
    (h : f.Parented name parent p) : (f.prune P).Parented name parent p := by
  induction f generalizing p with
  | nil => trivial
  | node a children rest ihc ihr =>
      unfold Forest.prune
      split_ifs
      · exact ⟨h.1, ihc h.2.1, ihr h.2.2⟩
      · exact ihr h.2.2

/-- **Leaving out the nodes outside of an upward closed set cuts branches.** -/
theorem postorder_prune {f : Forest α} (h : f.UpClosed P) :
    (f.prune P).postorder = f.postorder.filter P := by
  induction f with
  | nil => rfl
  | node a children rest ihc ihr =>
      obtain ⟨hroot, hchildren, hrest⟩ := h
      unfold prune
      by_cases ha : P a
      · rw [if_pos ha, postorder_node, postorder_node, List.filter_append,
          List.filter_cons_of_pos (by simpa using ha), ihc hchildren, ihr hrest]
      · have hnone : children.postorder.filter P = [] := by
          rw [List.filter_eq_nil_iff]
          intro b hb hPb
          exact ha (hroot ⟨b, mem_postorder.mp hb, by simpa using hPb⟩)
        rw [if_neg ha, postorder_node, List.filter_append, hnone, List.nil_append,
          List.filter_cons_of_neg (by simpa using ha), ihr hrest]

end

/-! ## Without some nodes -/

section

variable (P : α → Prop) [DecidablePred P]

/-- The forest without the nodes that are not in `P`: what is below such a node takes its place. -/
def contract : Forest α → Forest α
  | nil => nil
  | node a children rest =>
      if P a then node a children.contract rest.contract
      else children.contract.append rest.contract

lemma contract_append (f g : Forest α) :
    (f.append g).contract P = (f.contract P).append (g.contract P) := by
  induction f with
  | nil => rfl
  | node a children rest _ ih =>
      rw [node_append, contract, contract, ih]
      split_ifs
      · rfl
      · rw [append_assoc]

lemma size_contract_le (f : Forest α) : (f.contract P).size ≤ f.size := by
  induction f with
  | nil => exact le_rfl
  | node a children rest ihc ihr =>
      unfold contract
      split_ifs
      · rw [size, size]
        omega
      · rw [size_append, size]
        omega

end

lemma contract_map (P : β → Prop) [DecidablePred P] (g : α → β) (f : Forest α) :
    (f.map g).contract P = (f.contract fun a => P (g a)).map g := by
  induction f with
  | nil => rfl
  | node a children rest ihc ihr =>
      rw [map, contract, contract, ihc, ihr]
      split_ifs
      · rfl
      · rw [map_append]

lemma contract_congr {P Q : α → Prop} [DecidablePred P] [DecidablePred Q] {f : Forest α}
    (h : ∀ a ∈ f.preorder, P a ↔ Q a) : f.contract P = f.contract Q := by
  induction f with
  | nil => rfl
  | node a children rest ihc ihr =>
      have hinner := ihc fun b hb => h b (List.mem_cons_of_mem a (List.mem_append_left _ hb))
      have hbehind := ihr fun b hb => h b (List.mem_cons_of_mem a (List.mem_append_right _ hb))
      simp only [contract, hinner, hbehind, h a List.mem_cons_self]

/-! ## Rebuilding -/

/-- The trees of a forest, in order. -/
def trees : Forest α → List (α × Forest α)
  | nil => []
  | node a children rest => (a, children) :: rest.trees

/-- The forest of some trees. -/
def ofTrees : List (α × Forest α) → Forest α
  | [] => nil
  | t :: ts => node t.1 t.2 (ofTrees ts)

lemma ofTrees_trees (f : Forest α) : ofTrees f.trees = f := by
  induction f with
  | nil => rfl
  | node a children rest _ ihr => exact congrArg (node a children) ihr

variable [DecidableEq κ] (name parent : α → κ)

/-- A node arrives and takes the trees that name it; the last tree is the first of the list. -/
def attach (pending : List (α × Forest α)) (a : α) : List (α × Forest α) :=
  (a, ofTrees (pending.filter fun t => parent t.1 = name a).reverse) ::
    pending.filter fun t => parent t.1 ≠ name a

/-- The forest of a list of labels. -/
def rebuild (labels : List α) : Forest α :=
  ofTrees (labels.foldl (attach name parent) []).reverse

variable {name parent}

omit [DecidableEq κ] in
lemma Parented.trees {p : κ} {f : Forest α} (h : f.Parented name parent p) :
    ∀ t ∈ f.trees, parent t.1 = p := by
  induction f with
  | nil => exact fun t ht => absurd ht List.not_mem_nil
  | node a children rest _ ihr =>
      intro t ht
      rcases List.mem_cons.mp ht with rfl | ht
      · exact h.1
      · exact ihr h.2.2 t ht

/-- The children of a node are the trees that wait in front of all others. -/
lemma attach_children {children : Forest α} {a : α} {pending : List (α × Forest α)}
    (hchildren : children.Parented name parent (name a))
    (hpending : ∀ t ∈ pending, parent t.1 ≠ name a) :
    attach name parent (children.trees.reverse ++ pending) a = (a, children) :: pending := by
  have hyes : ∀ t ∈ children.trees.reverse, parent t.1 = name a := fun t ht =>
    hchildren.trees t (List.mem_reverse.mp ht)
  have htaken : (children.trees.reverse ++ pending).filter (fun t => parent t.1 = name a) =
      children.trees.reverse := by
    rw [List.filter_append, List.filter_eq_self.mpr (by simpa using hyes),
      List.filter_eq_nil_iff.mpr (by simpa using hpending), List.append_nil]
  have hleft : (children.trees.reverse ++ pending).filter (fun t => parent t.1 ≠ name a) =
      pending := by
    rw [List.filter_append, List.filter_eq_nil_iff.mpr (by simpa using hyes),
      List.filter_eq_self.mpr (by simpa using hpending), List.nil_append]
  rw [attach, htaken, hleft, List.reverse_reverse, ofTrees_trees]

/-- The trees of a forest are put in front of what waits already. -/
lemma foldl_attach {p : κ} {f : Forest α} (h : f.Parented name parent p)
    (hnodup : (f.preorder.map name).Nodup) (hp : p ∉ f.preorder.map name)
    {pending : List (α × Forest α)}
    (hpending : ∀ t ∈ pending, parent t.1 ∉ f.preorder.map name) :
    f.postorder.foldl (attach name parent) pending = f.trees.reverse ++ pending := by
  induction f generalizing p pending with
  | nil => rfl
  | node a children rest ihc ihr =>
      obtain ⟨hparent, hchildren, hrest⟩ := h
      rw [preorder_node, List.map_cons, List.map_append] at hnodup hp hpending
      obtain ⟨ha, hnodup⟩ := List.nodup_cons.mp hnodup
      have hsplit := List.nodup_append.mp hnodup
      have hinner := ihc hchildren hsplit.1 (fun hmem => ha (List.mem_append_left _ hmem))
        fun t ht hmem => hpending t ht (List.mem_cons_of_mem _ (List.mem_append_left _ hmem))
      have hother : ∀ t ∈ pending, parent t.1 ≠ name a := fun t ht heq =>
        hpending t ht (heq ▸ List.mem_cons_self)
      rw [postorder_node, List.foldl_append, hinner, List.foldl_cons,
        attach_children hchildren hother]
      -- the tree of `a` now waits, too
      have hrestNames : ∀ t ∈ (a, children) :: pending, parent t.1 ∉ rest.preorder.map name := by
        intro t ht hmem
        rcases List.mem_cons.mp ht with rfl | ht
        · rw [hparent] at hmem
          exact hp (List.mem_cons_of_mem _ (List.mem_append_right _ hmem))
        · exact hpending t ht (List.mem_cons_of_mem _ (List.mem_append_right _ hmem))
      have houter := ihr hrest hsplit.2.1
        (fun hmem => hp (List.mem_cons_of_mem _ (List.mem_append_right _ hmem))) hrestNames
      rw [houter, trees, List.reverse_cons, List.append_assoc, List.singleton_append]

/-- **The postorder of a forest with distinct names gives the forest back.** -/
theorem rebuild_postorder {p : κ} {f : Forest α} (h : f.Parented name parent p)
    (hnodup : (f.preorder.map name).Nodup) (hp : p ∉ f.preorder.map name) :
    rebuild name parent f.postorder = f := by
  rw [rebuild, foldl_attach h hnodup hp fun t ht => absurd ht List.not_mem_nil, List.append_nil,
    List.reverse_reverse, ofTrees_trees]

/-! ## With some labels missing -/

omit [DecidableEq κ] in
/-- Every child names the node it hangs below. -/
def Linked (name parent : α → κ) : Forest α → Prop
  | nil => True
  | node a children rest =>
      (∀ t ∈ children.trees, parent t.1 = name a) ∧ children.Linked name parent ∧
        rest.Linked name parent

lemma trees_ofTrees (ts : List (α × Forest α)) : (ofTrees ts).trees = ts := by
  induction ts with
  | nil => rfl
  | cons t ts ih => exact congrArg (t :: ·) ih

lemma preorder_ofTrees (ts : List (α × Forest α)) :
    (ofTrees ts).preorder = ts.flatMap fun t => t.1 :: t.2.preorder := by
  induction ts with
  | nil => rfl
  | cons t ts ih => rw [ofTrees, preorder_node, ih, List.flatMap_cons, List.cons_append]

/-- The labels that wait are those that waited, and the new one. -/
lemma attach_perm (pending : List (α × Forest α)) (a : α) :
    (ofTrees (attach name parent pending a)).preorder.Perm (a :: (ofTrees pending).preorder) := by
  have hsplit : ((pending.filter fun t => parent t.1 = name a).reverse ++
      pending.filter fun t => parent t.1 ≠ name a).Perm pending := by
    have hparts := List.filter_append_perm (fun t => decide (parent t.1 = name a)) pending
    simp only [← decide_not] at hparts
    exact ((List.reverse_perm _).append_right _).trans hparts
  rw [preorder_ofTrees, preorder_ofTrees, attach, List.flatMap_cons, List.cons_append,
    preorder_ofTrees, ← List.flatMap_append]
  exact List.Perm.cons a (hsplit.flatMap_right _)

lemma foldl_attach_perm (labels : List α) (pending : List (α × Forest α)) :
    (ofTrees (labels.foldl (attach name parent) pending)).preorder.Perm
      ((ofTrees pending).preorder ++ labels) := by
  induction labels generalizing pending with
  | nil => rw [List.foldl_nil, List.append_nil]
  | cons a labels ih =>
      refine (ih (attach name parent pending a)).trans ?_
      refine ((attach_perm pending a).append_right labels).trans ?_
      exact List.perm_middle.symm

/-- **Every label is in the forest, once.** -/
theorem rebuild_perm (labels : List α) : (rebuild name parent labels).preorder.Perm labels := by
  have hlabels : (ofTrees (labels.foldl (attach name parent) [])).preorder.Perm labels :=
    foldl_attach_perm labels []
  rw [preorder_ofTrees] at hlabels
  rw [rebuild, preorder_ofTrees]
  exact ((List.reverse_perm _).flatMap_right _).trans hlabels

omit [DecidableEq κ] in
lemma linked_ofTrees_iff {ts : List (α × Forest α)} :
    (ofTrees ts).Linked name parent ↔
      ∀ t ∈ ts, (∀ u ∈ t.2.trees, parent u.1 = name t.1) ∧ t.2.Linked name parent := by
  induction ts with
  | nil => simp [ofTrees, Linked]
  | cons t ts ih => rw [List.forall_mem_cons, ← ih, ofTrees, Linked, and_assoc]

/-- **Every edge is one that the child names**, whatever labels there are. -/
theorem rebuild_linked (labels : List α) :
    (rebuild name parent labels).Linked name parent := by
  have hpending : ∀ pending : List (α × Forest α), (ofTrees pending).Linked name parent →
      (ofTrees (labels.foldl (attach name parent) pending)).Linked name parent := by
    induction labels with
    | nil => exact fun _ h => h
    | cons a labels ih =>
        intro pending h
        apply ih
        rw [linked_ofTrees_iff] at h ⊢
        intro t ht
        rcases List.mem_cons.mp ht with rfl | ht
        · rw [trees_ofTrees, linked_ofTrees_iff]
          refine ⟨fun u hu => ?_, fun u hu => h u ?_⟩
          · exact of_decide_eq_true (List.mem_filter.mp (List.mem_reverse.mp hu)).2
          · exact (List.mem_filter.mp (List.mem_reverse.mp hu)).1
        · exact h t (List.mem_filter.mp ht).1
  have hall := linked_ofTrees_iff.mp (hpending [] trivial)
  exact linked_ofTrees_iff.mpr fun t ht => hall t (List.mem_reverse.mp ht)

/-- **A label is a root only when its parent is missing**, if no label comes behind its parent. -/
theorem rebuild_roots {labels : List α} (hlate : labels.Pairwise fun a b => parent b ≠ name a)
    (hself : ∀ a ∈ labels, parent a ≠ name a) :
    ∀ t ∈ (rebuild name parent labels).trees, ∀ a ∈ labels, parent t.1 ≠ name a := by
  have hpending : ∀ t ∈ labels.foldl (attach name parent) [], ∀ a ∈ labels,
      parent t.1 ≠ name a := by
    induction labels using List.reverseRecOn with
    | nil => exact fun t ht => absurd ht List.not_mem_nil
    | append_singleton labels a ih =>
        obtain ⟨hlate', _, hlast⟩ := List.pairwise_append.mp hlate
        have hbefore := ih hlate' fun b hb => hself b (List.mem_append_left _ hb)
        intro t ht b hb
        rw [List.foldl_append, List.foldl_cons, List.foldl_nil] at ht
        rcases List.mem_cons.mp ht with rfl | ht
        · rcases List.mem_append.mp hb with hb | hb
          · exact hlast b hb a (List.mem_singleton.mpr rfl)
          · rw [List.mem_singleton.mp hb]
            exact hself a (List.mem_append_right _ (List.mem_singleton.mpr rfl))
        · obtain ⟨hold, hother⟩ := List.mem_filter.mp ht
          rcases List.mem_append.mp hb with hb | hb
          · exact hbefore t hold b hb
          · rw [List.mem_singleton.mp hb]
            exact of_decide_eq_true hother
  rw [rebuild, trees_ofTrees]
  exact fun t ht => hpending t (List.mem_reverse.mp ht)

omit [DecidableEq κ] in
/-- In the postorder of a forest with distinct names, no node comes behind its parent. -/
lemma Parented.postorder_late {p : κ} {f : Forest α} (h : f.Parented name parent p)
    (hnodup : (f.preorder.map name).Nodup) (hp : p ∉ f.preorder.map name) :
    (f.postorder.Pairwise fun a b => parent b ≠ name a) ∧
      ∀ a ∈ f.preorder, parent a ≠ name a := by
  induction f generalizing p with
  | nil => exact ⟨List.Pairwise.nil, fun a ha => absurd ha List.not_mem_nil⟩
  | node a children rest ihc ihr =>
      obtain ⟨hparent, hchildren, hrest⟩ := h
      rw [preorder_node, List.map_cons, List.map_append] at hnodup hp
      obtain ⟨ha, hnodup⟩ := List.nodup_cons.mp hnodup
      obtain ⟨hnodupChildren, hnodupRest, hdisjoint⟩ := List.nodup_append.mp hnodup
      have hpa : p ≠ name a := fun heq => hp (heq ▸ List.mem_cons_self)
      have hpchildren : p ∉ children.preorder.map name := fun hmem =>
        hp (List.mem_cons_of_mem _ (List.mem_append_left _ hmem))
      obtain ⟨hlate₁, hself₁⟩ := ihc hchildren hnodupChildren fun hmem =>
        ha (List.mem_append_left _ hmem)
      obtain ⟨hlate₂, hself₂⟩ := ihr hrest hnodupRest fun hmem =>
        hp (List.mem_cons_of_mem _ (List.mem_append_right _ hmem))
      -- what stands behind the first tree names `p`, or a node behind it
      have hbehind : ∀ b ∈ rest.preorder, ∀ c, (p ≠ name c) → name c ∉ rest.preorder.map name →
          parent b ≠ name c := by
        intro b hb c hc hnew heq
        rcases hrest.parent_mem hb with hpb | ⟨d, hd, hpd⟩
        · exact hc (hpb.symm.trans heq)
        · exact hnew (List.mem_map.mpr ⟨d, hd, hpd.symm.trans heq⟩)
      constructor
      · rw [postorder_node, List.pairwise_append, List.pairwise_cons]
        refine ⟨hlate₁, ⟨?_, hlate₂⟩, ?_⟩
        · intro b hb
          exact hbehind b (mem_postorder.mp hb) a hpa fun hmem =>
            ha (List.mem_append_right _ hmem)
        · intro c hc b hb
          have hcmem : name c ∈ children.preorder.map name :=
            List.mem_map_of_mem (mem_postorder.mp hc)
          have hpc : p ≠ name c := fun heq => hpchildren (heq ▸ hcmem)
          rcases List.mem_cons.mp hb with rfl | hb
          · rw [hparent]
            exact hpc
          · exact hbehind b (mem_postorder.mp hb) c hpc fun hmem =>
              hdisjoint _ hcmem _ hmem rfl
      · intro b hb
        rw [preorder_node, List.mem_cons, List.mem_append] at hb
        rcases hb with rfl | hb | hb
        · rw [hparent]
          exact hpa
        · exact hself₁ b hb
        · exact hself₂ b hb

end LumbreExt.Lib.Forest
