import Mathlib.Data.Fintype.Card
import Mathlib.Logic.Function.Iterate
import Mathlib.Tactic.Common

/-!
# Open addressing with linear probing

A general account of a hash table of `N` slots in which an entry stands at the first free slot from
its home slot on, walking around. It has no knowledge of any program; a key is whatever `key` makes
of an entry, and its home slot whatever `home` makes of the key.

* `loop` — a `while` loop with fuel, and `loop_eq_some`, which runs it to the first state at which it
  stops.
* `slotAt h d` — the slot `d` steps behind `h`, around the table.
* `Probed` — the table invariant: between the home slot of an entry and its slot there is no free
  slot, and no two slots hold the same key.
* `exists_free` — a table with fewer entries than slots has a free slot, which bounds every walk.
* `Probed.insert` — storing at the first free slot keeps the invariant.
* `Probed.find` — a walk that stops at the first free slot or hit finds exactly the stored keys.
-/

namespace LumbreExt.Lib

/-! ## Loops -/

/-- `while (stop s = none) s = next s`, with the value it stops with; `none` when the fuel does not
reach that far. -/
def loop {σ ρ : Type} (next : σ → σ) (stop : σ → Option ρ) : ℕ → σ → Option ρ
  | 0, _ => none
  | fuel + 1, s =>
      match stop s with
      | some r => some r
      | none => loop next stop fuel (next s)

/-- A loop runs to the first state at which it stops. -/
lemma loop_eq_some {σ ρ : Type} {next : σ → σ} {stop : σ → Option ρ} {d fuel : ℕ} {s : σ} {r : ρ}
    (hgo : ∀ e < d, stop (next^[e] s) = none) (hstop : stop (next^[d] s) = some r)
    (hfuel : d < fuel) : loop next stop fuel s = some r := by
  induction d generalizing s fuel with
  | zero =>
      obtain ⟨n, rfl⟩ := Nat.exists_eq_add_of_lt hfuel
      rw [Nat.zero_add, loop]
      rw [Function.iterate_zero_apply] at hstop
      rw [hstop]
  | succ d ih =>
      obtain ⟨n, rfl⟩ := Nat.exists_eq_add_of_lt (Nat.lt_of_le_of_lt (Nat.zero_le _) hfuel)
      have hfirst : stop s = none := hgo 0 (Nat.succ_pos d)
      rw [Nat.zero_add, loop, hfirst]
      refine ih ?_ ?_ (by omega)
      · intro e he
        rw [← Function.iterate_succ_apply]
        exact hgo (e + 1) (Nat.succ_lt_succ he)
      · rw [← Function.iterate_succ_apply]
        exact hstop

/-- A loop on one state space runs as its image on another. -/
lemma loop_map {σ τ ρ ρ' : Type} {next : σ → σ} {stop : σ → Option ρ} {next' : τ → τ}
    {stop' : τ → Option ρ'} {f : σ → τ} {g : ρ → ρ'} (hnext : ∀ s, f (next s) = next' (f s))
    (hstop : ∀ s, (stop s).map g = stop' (f s)) (fuel : ℕ) (s : σ) :
    (loop next stop fuel s).map g = loop next' stop' fuel (f s) := by
  induction fuel generalizing s with
  | zero => rfl
  | succ fuel ih =>
      rw [loop, loop, ← hstop, ← hnext, ← ih]
      cases stop s <;> rfl

namespace OpenAddressing

variable {N : ℕ}

/-! ## Slots -/

/-- The slot `d` steps behind `h`, around the table. -/
def slotAt (h : Fin N) (d : ℕ) : Fin N :=
  ⟨(h + d) % N, Nat.mod_lt _ h.pos⟩

@[simp] lemma slotAt_zero (h : Fin N) : slotAt h 0 = h :=
  Fin.ext (Nat.mod_eq_of_lt h.isLt)

lemma slotAt_slotAt (h : Fin N) (d e : ℕ) : slotAt (slotAt h d) e = slotAt h (d + e) := by
  apply Fin.ext
  simp only [slotAt, Nat.mod_add_mod, Nat.add_assoc]

/-- Every slot is less than `N` steps away. -/
lemma exists_slotAt (h s : Fin N) : ∃ d < N, slotAt h d = s := by
  have hs := s.isLt
  have hh := h.isLt
  rcases Nat.lt_or_ge s h with hlt | hge
  · refine ⟨s + N - h, by omega, Fin.ext ?_⟩
    have hsum : h.val + (s + N - h) = s + N := by omega
    simp only [slotAt, hsum, Nat.add_mod_right]
    exact Nat.mod_eq_of_lt hs
  · refine ⟨s - h, by omega, Fin.ext ?_⟩
    have hsum : h.val + (s - h) = s := by omega
    simp only [slotAt, hsum]
    exact Nat.mod_eq_of_lt hs

/-- The first `N` slots on a walk are different. -/
lemma eq_of_slotAt_eq {h : Fin N} {d e : ℕ} (hd : d < N) (he : e < N)
    (heq : slotAt h d = slotAt h e) : d = e := by
  have hh := h.isLt
  have hmod : (h.val + d) % N = (h.val + e) % N := congrArg Fin.val heq
  rcases Nat.lt_or_ge (h.val + d) N with hd' | hd' <;>
    rcases Nat.lt_or_ge (h.val + e) N with he' | he'
  · rw [Nat.mod_eq_of_lt hd', Nat.mod_eq_of_lt he'] at hmod
    omega
  · rw [Nat.mod_eq_of_lt hd', Nat.mod_eq_sub_mod he', Nat.mod_eq_of_lt (by omega)] at hmod
    omega
  · rw [Nat.mod_eq_of_lt he', Nat.mod_eq_sub_mod hd', Nat.mod_eq_of_lt (by omega)] at hmod
    omega
  · rw [Nat.mod_eq_sub_mod hd', Nat.mod_eq_sub_mod he', Nat.mod_eq_of_lt (by omega),
      Nat.mod_eq_of_lt (by omega)] at hmod
    omega

/-- The next slot on a walk. -/
def following (s : Fin N) : Fin N := slotAt s 1

lemma iterate_following (h : Fin N) (d : ℕ) : following^[d] h = slotAt h d := by
  induction d with
  | zero => rw [slotAt_zero, Function.iterate_zero_apply]
  | succ d ih => rw [Function.iterate_succ_apply', ih, following, slotAt_slotAt]

/-! ## Tables -/

/-- The contents of the slots. -/
abbrev Table (N : ℕ) (α : Type) := Fin N → Option α

variable {α κ : Type} (key : α → κ) (home : κ → Fin N)

/-- Every slot from `h` on, for `d` steps, holds an entry. -/
def Occupied (t : Table N α) (h : Fin N) (d : ℕ) : Prop :=
  ∀ e < d, (t (slotAt h e)).isSome

/-- The table is one that linear probing builds. -/
structure Probed (t : Table N α) : Prop where
  /-- No free slot stands between the home slot of an entry and its slot. -/
  reachable : ∀ s a, t s = some a →
    ∃ d < N, slotAt (home (key a)) d = s ∧ Occupied t (home (key a)) d
  /-- No two slots hold the same key. -/
  injective : ∀ s s' a a', t s = some a → t s' = some a' → key a = key a' → s = s'

/-- The entries of a table are those of a list. -/
def Holds (t : Table N α) (as : List α) : Prop :=
  ∀ a, (∃ s, t s = some a) ↔ a ∈ as

lemma probed_empty : Probed key home (fun _ => none : Table N α) :=
  ⟨fun _ _ h => absurd h.symm (Option.some_ne_none _),
    fun _ _ _ _ h => absurd h.symm (Option.some_ne_none _)⟩

lemma holds_empty : Holds (fun _ => none : Table N α) [] := by
  intro a
  simp

/-! ## Free slots -/

section free

variable {key home}

/-- A table that holds fewer entries than it has slots has a free slot. -/
lemma exists_free {t : Table N α} {as : List α} (hprobed : Probed key home t)
    (hholds : Holds t as) (hlength : as.length < N) : ∃ s, t s = none := by
  by_contra hnone
  have hfull : ∀ s, ∃ a, t s = some a := fun s =>
    Option.ne_none_iff_exists'.mp fun h => hnone ⟨s, h⟩
  obtain ⟨entry, hentry⟩ := Classical.axiomOfChoice hfull
  have hinjective : Function.Injective entry := by
    intro s s' heq
    exact hprobed.injective s s' _ _ (hentry s) (hentry s') (congrArg key heq)
  have hsubset : List.ofFn entry ⊆ as := by
    intro a ha
    obtain ⟨s, rfl⟩ := List.mem_ofFn.mp ha
    exact (hholds _).mp ⟨s, hentry s⟩
  have hle := ((List.nodup_ofFn.mpr hinjective).subperm hsubset).length_le
  rw [List.length_ofFn] at hle
  omega

/-- A walk meets a free slot, and only entries before the first one. -/
lemma exists_first_free {t : Table N α} (hfree : ∃ s, t s = none) (h : Fin N) :
    ∃ d < N, t (slotAt h d) = none ∧ Occupied t h d := by
  classical
  obtain ⟨s, hs⟩ := hfree
  obtain ⟨d, hd, rfl⟩ := exists_slotAt h s
  have hex : ∃ d, t (slotAt h d) = none := ⟨d, hs⟩
  refine ⟨Nat.find hex, Nat.lt_of_le_of_lt (Nat.find_min' hex hs) hd, Nat.find_spec hex, ?_⟩
  intro e he
  exact Option.isSome_iff_ne_none.mpr (Nat.find_min hex he)

end free

/-! ## Insertion -/

/-- A walk for a free slot stops at one. -/
def stopAtFree (t : Table N α) (s : Fin N) : Option (Fin N) :=
  if (t s).isSome then none else some s

/-- The first free slot from `h` on. -/
def freeSlot (t : Table N α) (fuel : ℕ) (h : Fin N) : Option (Fin N) :=
  loop following (stopAtFree t) fuel h

/-- The walk for a free slot ends, within as many steps as there are slots. -/
lemma freeSlot_eq {t : Table N α} (hfree : ∃ s, t s = none) (h : Fin N) :
    ∃ d < N, t (slotAt h d) = none ∧ Occupied t h d ∧
      ∀ fuel, N ≤ fuel → freeSlot t fuel h = some (slotAt h d) := by
  obtain ⟨d, hd, hnone, hoccupied⟩ := exists_first_free hfree h
  refine ⟨d, hd, hnone, hoccupied, ?_⟩
  intro fuel hfuel
  refine loop_eq_some (d := d) ?_ ?_ (by omega)
  · intro e he
    rw [iterate_following, stopAtFree, if_pos (hoccupied e he)]
  · rw [iterate_following, stopAtFree, hnone]
    rfl

section insertion

variable {key home}

/-- Storing a new key at the first free slot from its home keeps the invariant. -/
lemma Probed.insert {t : Table N α} (hprobed : Probed key home t) {a : α}
    {d : ℕ} (hd : d < N) (hoccupied : Occupied t (home (key a)) d)
    (hnew : ∀ s b, t s = some b → key b ≠ key a) :
    Probed key home (Function.update t (slotAt (home (key a)) d) (some a)) := by
  have hgrows : ∀ {h e}, Occupied t h e →
      Occupied (Function.update t (slotAt (home (key a)) d) (some a)) h e := by
    intro h e hocc e' he'
    rcases eq_or_ne (slotAt h e') (slotAt (home (key a)) d) with heq | hne
    · rw [heq, Function.update_self]
      rfl
    · rw [Function.update_of_ne hne]
      exact hocc e' he'
  constructor
  · intro s b hs
    rcases eq_or_ne s (slotAt (home (key a)) d) with rfl | hne
    · rw [Function.update_self] at hs
      obtain rfl := Option.some.inj hs
      exact ⟨d, hd, rfl, hgrows hoccupied⟩
    · rw [Function.update_of_ne hne] at hs
      obtain ⟨e, he, hslot, hocc⟩ := hprobed.reachable s b hs
      exact ⟨e, he, hslot, hgrows hocc⟩
  · intro s s' b b' hs hs' hkey
    rcases eq_or_ne s (slotAt (home (key a)) d) with rfl | hne <;>
      rcases eq_or_ne s' (slotAt (home (key a)) d) with rfl | hne'
    · rfl
    · rw [Function.update_self] at hs
      rw [Function.update_of_ne hne'] at hs'
      obtain rfl := Option.some.inj hs
      exact absurd hkey.symm (hnew s' b' hs')
    · rw [Function.update_self] at hs'
      rw [Function.update_of_ne hne] at hs
      obtain rfl := Option.some.inj hs'
      exact absurd hkey (hnew s b hs)
    · rw [Function.update_of_ne hne] at hs
      rw [Function.update_of_ne hne'] at hs'
      exact hprobed.injective s s' b b' hs hs' hkey

/-- Storing at a free slot adds one entry. -/
lemma Holds.insert {t : Table N α} {as : List α} (hholds : Holds t as)
    {a : α} {s : Fin N} (hfree : t s = none) :
    Holds (Function.update t s (some a)) (as ++ [a]) := by
  intro b
  rw [List.mem_append, List.mem_singleton, ← hholds b]
  constructor
  · rintro ⟨s', hs'⟩
    rcases eq_or_ne s' s with rfl | hne
    · rw [Function.update_self] at hs'
      exact Or.inr (Option.some.inj hs').symm
    · rw [Function.update_of_ne hne] at hs'
      exact Or.inl ⟨s', hs'⟩
  · rintro (⟨s', hs'⟩ | rfl)
    · have hne : s' ≠ s := by
        rintro rfl
        exact absurd (hs'.symm.trans hfree) (Option.some_ne_none b)
      exact ⟨s', by rw [Function.update_of_ne hne]; exact hs'⟩
    · exact ⟨s, Function.update_self s _ t⟩

end insertion

/-! ## Lookup -/

/-- A walk for an entry stops at a hit, and at a free slot. -/
def stopAtHit (t : Table N α) (hit : α → Bool) (s : Fin N) : Option (Option α) :=
  match t s with
  | none => some none
  | some a => if hit a then some (some a) else none

lemma stopAtHit_of_none {t : Table N α} {hit : α → Bool} {s : Fin N} (h : t s = none) :
    stopAtHit t hit s = some none := by
  rw [stopAtHit, h]

lemma stopAtHit_of_some {t : Table N α} {hit : α → Bool} {s : Fin N} {a : α} (h : t s = some a) :
    stopAtHit t hit s = if hit a then some (some a) else none := by
  rw [stopAtHit, h]

/-- The first hit from `h` on, or `none` when a free slot comes first. -/
def lookup (t : Table N α) (hit : α → Bool) (fuel : ℕ) (h : Fin N) : Option (Option α) :=
  loop following (stopAtHit t hit) fuel h

section lookup

variable {key home} {t : Table N α} {hit : α → Bool} {k : κ}

/-- The walk stops at the entry with the key. -/
lemma Probed.lookup_of_mem (hprobed : Probed key home t)
    (hhit : ∀ s a, t s = some a → (hit a = true ↔ key a = k)) {s : Fin N} {a : α}
    (hs : t s = some a) (hkey : key a = k) {fuel : ℕ} (hfuel : N ≤ fuel) :
    lookup t hit fuel (home k) = some (some a) := by
  subst hkey
  obtain ⟨d, hd, hslot, hoccupied⟩ := hprobed.reachable s a hs
  refine loop_eq_some (d := d) ?_ ?_ (by omega)
  · intro e he
    obtain ⟨b, hb⟩ := Option.isSome_iff_exists.mp (hoccupied e he)
    have hne : key b ≠ key a := by
      intro hkey
      have hsame := hprobed.injective _ _ _ _ hb hs hkey
      rw [← hslot] at hsame
      have := eq_of_slotAt_eq (by omega) hd hsame
      omega
    have hmiss : hit b = false := Bool.eq_false_iff.mpr fun h => hne ((hhit _ b hb).mp h)
    rw [iterate_following, stopAtHit_of_some hb]
    exact if_neg (Bool.eq_false_iff.mp hmiss)
  · rw [iterate_following, hslot, stopAtHit_of_some hs]
    exact if_pos ((hhit s a hs).mpr rfl)

/-- Without an entry with the key, the walk ends at a free slot. -/
lemma lookup_of_not_mem (hfree : ∃ s, t s = none)
    (hhit : ∀ s a, t s = some a → (hit a = true ↔ key a = k))
    (hmiss : ∀ s a, t s = some a → key a ≠ k) (h : Fin N) {fuel : ℕ} (hfuel : N ≤ fuel) :
    lookup t hit fuel h = some none := by
  obtain ⟨d, hd, hnone, hoccupied⟩ := exists_first_free hfree h
  refine loop_eq_some (d := d) ?_ ?_ (by omega)
  · intro e he
    obtain ⟨b, hb⟩ := Option.isSome_iff_exists.mp (hoccupied e he)
    have hno : hit b = false :=
      Bool.eq_false_iff.mpr fun h => hmiss _ b hb ((hhit _ b hb).mp h)
    rw [iterate_following, stopAtHit_of_some hb]
    exact if_neg (Bool.eq_false_iff.mp hno)
  · rw [iterate_following, stopAtHit_of_none hnone]

end lookup

end OpenAddressing

end LumbreExt.Lib
