import Mathlib.Algebra.Ring.Nat
import Mathlib.Data.List.Basic
import Mathlib.Data.List.Forall2
import Mathlib.Tactic.Common

/-!
# ASCII letters, separators and digits

Byte strings compared up to the case of ASCII letters, numbers written in decimal, and byte strings
written in hexadecimal. It has no knowledge of any program.

* `lower`, `EqFold` — the case folding of a byte, and equality of byte strings up to it.
* `append_cons_inj`, `append_cons_inj_right` — a string is split at a separator in one way only, be
  it at its first or at its last occurrence.
* `decimal` — a number in decimal digits; `decimal_injective`.
* `IsHexDigit`, `hexChar`, `encodeHex` — the hexadecimal digits of either case, and bytes written out
  in lower-case digits.
* `encodeHex_cons_of_digits` — the rule a decoder is proved by: two digits denote one byte.

A fact about all bytes is a fact about 256 numbers, and is decided (`forall_byte`).
-/

namespace LumbreExt.Lib

/-- What holds of the first 256 numbers holds of every byte. -/
lemma forall_byte {P : UInt8 → Prop} (h : ∀ n < 256, P (UInt8.ofNat n)) (b : UInt8) : P b := by
  have hb := h b.toNat b.toNat_lt
  rwa [UInt8.ofNat_toNat] at hb

/-! ## Case folding -/

/-- An upper-case letter. -/
def IsUpper (c : UInt8) : Prop := 0x41 ≤ c ∧ c ≤ 0x5A

instance (c : UInt8) : Decidable (IsUpper c) := inferInstanceAs (Decidable (_ ∧ _))

/-- The byte with an upper-case letter replaced by its lower case. -/
def lower (c : UInt8) : UInt8 := if IsUpper c then c + 0x20 else c

/-- Equality of byte strings up to the case of ASCII letters. -/
def EqFold (xs ys : List UInt8) : Prop := xs.map lower = ys.map lower

instance (xs ys : List UInt8) : Decidable (EqFold xs ys) := inferInstanceAs (Decidable (_ = _))

@[refl] lemma EqFold.refl (xs : List UInt8) : EqFold xs xs := rfl

lemma EqFold.symm {xs ys : List UInt8} (h : EqFold xs ys) : EqFold ys xs := Eq.symm h

lemma EqFold.length_eq {xs ys : List UInt8} (h : EqFold xs ys) : xs.length = ys.length := by
  have hlength := congrArg List.length h
  rwa [List.length_map, List.length_map] at hlength

/-- What folds to a byte is that byte, or the upper case of it. -/
lemma eq_or_eq_of_lower_eq {c l : UInt8} (h : lower c = l) : c = l ∨ c = l - 0x20 := by
  unfold lower at h
  by_cases hupper : IsUpper c
  · rw [if_pos hupper] at h
    right
    rw [← h, UInt8.add_sub_cancel]
  · rw [if_neg hupper] at h
    exact Or.inl h

/-- A byte that is no letter occurs in both of two strings that agree up to case, or in neither. -/
lemma EqFold.mem_iff {xs ys : List UInt8} (h : EqFold xs ys) {c : UInt8}
    (hc : ∀ a, lower a = c ↔ a = c) : c ∈ xs ↔ c ∈ ys := by
  have hmem : ∀ zs : List UInt8, c ∈ zs ↔ c ∈ zs.map lower := by
    intro zs
    rw [List.mem_map]
    constructor
    · intro hz
      exact ⟨c, hz, (hc c).mpr rfl⟩
    · rintro ⟨z, hz, hlower⟩
      rwa [(hc z).mp hlower] at hz
  rw [hmem xs, hmem ys, h]

/-- A separator splits a string in one way only: at its first occurrence. -/
lemma append_cons_inj {x y s t : List UInt8} {sep : UInt8} (hx : sep ∉ x) (hy : sep ∉ y)
    (h : x ++ sep :: s = y ++ sep :: t) : x = y ∧ s = t := by
  induction x generalizing y with
  | nil =>
      cases y with
      | nil => exact ⟨rfl, List.tail_eq_of_cons_eq h⟩
      | cons b y =>
          have hhead : sep = b := List.head_eq_of_cons_eq h
          exact absurd List.mem_cons_self (hhead ▸ hy)
  | cons a x ih =>
      cases y with
      | nil =>
          have hhead : a = sep := List.head_eq_of_cons_eq h
          exact absurd List.mem_cons_self (hhead ▸ hx)
      | cons b y =>
          rw [List.cons_append, List.cons_append, List.cons.injEq] at h
          obtain ⟨hxy, hst⟩ := ih (mt (List.mem_cons_of_mem a) hx) (mt (List.mem_cons_of_mem b) hy)
            h.2
          rw [h.1, hxy]
          exact ⟨rfl, hst⟩

/-- A separator splits a string in one way only, also at its last occurrence. -/
lemma append_cons_inj_right {x y s t : List UInt8} {sep : UInt8} (hs : sep ∉ s) (ht : sep ∉ t)
    (h : x ++ sep :: s = y ++ sep :: t) : x = y ∧ s = t := by
  have hreverse := congrArg List.reverse h
  simp only [List.reverse_append, List.reverse_cons, List.append_assoc, List.singleton_append]
    at hreverse
  obtain ⟨hst, hxy⟩ := append_cons_inj (List.mem_reverse.not.mpr hs) (List.mem_reverse.not.mpr ht)
    hreverse
  exact ⟨List.reverse_injective hxy, List.reverse_injective hst⟩

/-! ## Decimal -/

/-- A decimal digit. -/
def IsDigit (c : UInt8) : Prop := 0x30 ≤ c ∧ c ≤ 0x39

instance (c : UInt8) : Decidable (IsDigit c) := inferInstanceAs (Decidable (_ ∧ _))

/-- A number written in decimal. -/
def decimal (n : ℕ) : List UInt8 := (Nat.toDigits 10 n).map fun c => UInt8.ofNat c.toNat

lemma toNat_digit {c : Char} (h : c.isDigit) : 48 ≤ c.toNat ∧ c.toNat ≤ 57 := by
  simp only [Char.isDigit, ge_iff_le, Bool.and_eq_true, decide_eq_true_eq] at h
  exact ⟨h.1, h.2⟩

lemma isDigit_of_mem_decimal {n : ℕ} {b : UInt8} (h : b ∈ decimal n) : IsDigit b := by
  obtain ⟨c, hc, rfl⟩ := List.mem_map.mp h
  obtain ⟨hle, hge⟩ := toNat_digit
    (Nat.isDigit_of_mem_toDigits (by decide) (Nat.le_refl 10) hc)
  have hto : (UInt8.ofNat c.toNat).toNat = c.toNat :=
    UInt8.toNat_ofNat_of_lt' (show c.toNat < 256 by omega)
  constructor
  · rw [UInt8.le_iff_toNat_le, hto]
    exact hle
  · rw [UInt8.le_iff_toNat_le, hto]
    exact hge

/-- A number can be read back from its digits. -/
lemma decimal_injective : Function.Injective decimal := by
  have hback : ∀ n, (decimal n).map (fun b => Char.ofNat b.toNat) = Nat.toDigits 10 n := by
    intro n
    rw [decimal, List.map_map]
    refine (List.map_congr_left ?_).trans (List.map_id _)
    intro c hc
    obtain ⟨_, hge⟩ := toNat_digit
      (Nat.isDigit_of_mem_toDigits (by decide) (Nat.le_refl 10) hc)
    change Char.ofNat (UInt8.ofNat c.toNat).toNat = c
    rw [UInt8.toNat_ofNat_of_lt' (show c.toNat < 256 by omega), Char.ofNat_toNat]
  intro m n h
  have hdigits : Nat.toDigits 10 m = Nat.toDigits 10 n := by rw [← hback m, ← hback n, h]
  rw [← Nat.ofDigitChars_ten_toDigits (n := m), hdigits, Nat.ofDigitChars_ten_toDigits]

/-! ## Hexadecimal -/

/-- A hexadecimal digit of either case. -/
def IsHexDigit (c : UInt8) : Prop :=
  (0x30 ≤ c ∧ c ≤ 0x39) ∨ (0x61 ≤ c ∧ c ≤ 0x66) ∨ (0x41 ≤ c ∧ c ≤ 0x46)

instance (c : UInt8) : Decidable (IsHexDigit c) := inferInstanceAs (Decidable (_ ∨ _ ∨ _))

/-- The lower-case digit of a number below 16. -/
def hexChar (n : ℕ) : UInt8 := UInt8.ofNat (if n < 10 then 0x30 + n else 0x57 + n)

/-- The bytes written out, two lower-case digits each. -/
def encodeHex : List UInt8 → List UInt8
  | [] => []
  | b :: bs => hexChar (b.toNat / 16) :: hexChar (b.toNat % 16) :: encodeHex bs

lemma length_encodeHex (bs : List UInt8) : (encodeHex bs).length = 2 * bs.length := by
  induction bs with
  | nil => rfl
  | cons b bs ih =>
      simp only [encodeHex, List.length_cons, ih]
      omega

/-- Two digits denote one byte. -/
lemma encodeHex_cons_of_digits {hi lo : UInt8} {h l : ℕ} (hh : h < 16) (hl : l < 16)
    (hhi : hexChar h = lower hi) (hlo : hexChar l = lower lo) (bs : List UInt8) :
    encodeHex (UInt8.ofNat (16 * h + l) :: bs) = lower hi :: lower lo :: encodeHex bs := by
  have hbyte : (UInt8.ofNat (16 * h + l)).toNat = 16 * h + l := by
    rw [UInt8.toNat_ofNat']
    omega
  have hhigh : (16 * h + l) / 16 = h := by omega
  have hlow : (16 * h + l) % 16 = l := by omega
  rw [encodeHex, hbyte, hhigh, hlow, hhi, hlo]

end LumbreExt.Lib
