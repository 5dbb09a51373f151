import Mathlib.Algebra.Ring.Nat
import Mathlib.Data.Nat.Size
import Mathlib.Order.Bounds.Basic
import Mathlib.Tactic.Common

/-!
# Rounding up to a power of two

The bit-smearing idiom over natural numbers. It has no knowledge of any word size or program.

* `smear k x` — `k` rounds of `x |= x >> s`, with the shift doubled from round to round;
  `testBit_smear` says which bits are set after them.
* `smear_eq` — enough rounds set exactly the bits up to the highest one.
* `IsCeilPow c n` — `c` is the least power of two that is not below `n`.
* `isCeilPow_two_pow`, `isCeilPow_smear` — a power of two is its own rounding; for any other number it
  is one more than the smeared predecessor.
-/

namespace LumbreExt.Lib

/-! ## Smearing -/

/-- `k` rounds of smearing: shifts by `1`, `2`, `4`, …, `2 ^ (k - 1)`. -/
def smear : ℕ → ℕ → ℕ
  | 0, x => x
  | k + 1, x => smear k x ||| (smear k x >>> 2 ^ k)

/-- After `k` rounds a bit is set when one of the `2 ^ k` bits from it on was. -/
lemma testBit_smear (k x i : ℕ) :
    (smear k x).testBit i = true ↔ ∃ j < 2 ^ k, x.testBit (i + j) = true := by
  induction k generalizing i with
  | zero => simp [smear]
  | succ k ih =>
      have hpow : (2 : ℕ) ^ (k + 1) = 2 ^ k + 2 ^ k := by rw [Nat.pow_succ, Nat.mul_two]
      rw [smear, Nat.testBit_or, Nat.testBit_shiftRight, Bool.or_eq_true, ih, ih, hpow]
      constructor
      · rintro (⟨j, hj, hbit⟩ | ⟨j, hj, hbit⟩)
        · exact ⟨j, by omega, hbit⟩
        · refine ⟨2 ^ k + j, by omega, ?_⟩
          rwa [← Nat.add_assoc, Nat.add_comm i]
      · rintro ⟨j, hj, hbit⟩
        by_cases hlow : j < 2 ^ k
        · exact Or.inl ⟨j, hlow, hbit⟩
        · refine Or.inr ⟨j - 2 ^ k, by omega, ?_⟩
          have hoff : 2 ^ k + i + (j - 2 ^ k) = i + j := by omega
          rwa [hoff]

/-- A number has a bit at `i` or above exactly when it is at least `2 ^ i`. -/
lemma exists_testBit_iff (x i : ℕ) : (∃ j, x.testBit (i + j) = true) ↔ 2 ^ i ≤ x := by
  constructor
  · rintro ⟨j, hbit⟩
    have hle := Nat.ge_two_pow_of_testBit hbit
    exact le_trans (Nat.pow_le_pow_right (by decide) (Nat.le_add_right i j)) hle
  · intro hle
    obtain ⟨j, hij, hbit⟩ := Nat.exists_ge_and_testBit_of_ge_two_pow hle
    obtain ⟨d, rfl⟩ := Nat.exists_eq_add_of_le hij
    exact ⟨d, hbit⟩

/-- **Enough rounds set exactly the bits up to the highest one.** -/
lemma smear_eq {k x : ℕ} (hx : x < 2 ^ 2 ^ k) : smear k x = 2 ^ x.size - 1 := by
  apply Nat.eq_of_testBit_eq
  intro i
  rw [Bool.eq_iff_iff, testBit_smear, Nat.testBit_two_pow_sub_one, decide_eq_true_eq, Nat.lt_size,
    ← exists_testBit_iff]
  constructor
  · rintro ⟨j, _, hbit⟩
    exact ⟨j, hbit⟩
  · rintro ⟨j, hbit⟩
    refine ⟨j, ?_, hbit⟩
    -- a bit that far up would make the number too large
    have hge := Nat.ge_two_pow_of_testBit hbit
    have hlt : i + j < 2 ^ k := (Nat.pow_lt_pow_iff_right (by decide)).mp (lt_of_le_of_lt hge hx)
    omega

/-! ## Rounding -/

/-- `c` is the least power of two that is not below `n`. -/
def IsCeilPow (c n : ℕ) : Prop := IsLeast {m | (∃ k, m = 2 ^ k) ∧ n ≤ m} c

lemma IsCeilPow.exists_eq {c n : ℕ} (h : IsCeilPow c n) : ∃ k, c = 2 ^ k := h.1.1

lemma IsCeilPow.le {c n : ℕ} (h : IsCeilPow c n) : n ≤ c := h.1.2

/-- A power of two is its own rounding. -/
lemma isCeilPow_two_pow (k : ℕ) : IsCeilPow (2 ^ k) (2 ^ k) :=
  ⟨⟨⟨k, rfl⟩, le_rfl⟩, fun _ hm => hm.2⟩

/-- The power of two above the predecessor's highest bit is the rounding of a number. -/
lemma isCeilPow_size {n : ℕ} (hn : 0 < n) : IsCeilPow (2 ^ (n - 1).size) n := by
  refine ⟨⟨⟨_, rfl⟩, ?_⟩, ?_⟩
  · have hlt := Nat.lt_size_self (n - 1)
    omega
  · rintro m ⟨⟨k, rfl⟩, hle⟩
    have hlt : n - 1 < 2 ^ k := by omega
    exact Nat.pow_le_pow_right (by decide) (Nat.size_le.mpr hlt)

/-- **The idiom rounds up**: decrement, smear, increment. -/
lemma isCeilPow_smear {k n : ℕ} (hn : 0 < n) (hlt : n - 1 < 2 ^ 2 ^ k) :
    IsCeilPow (smear k (n - 1) + 1) n := by
  have hsize := isCeilPow_size hn
  have hpos := Nat.two_pow_pos (n - 1).size
  rw [smear_eq hlt, Nat.sub_add_cancel hpos]
  exact hsize

/-- No number up to `2 ^ k` is rounded to more than `2 ^ k`. -/
lemma IsCeilPow.le_two_pow_iff {c n : ℕ} (h : IsCeilPow c n) (k : ℕ) : c ≤ 2 ^ k ↔ n ≤ 2 ^ k :=
  ⟨fun hc => le_trans h.le hc, fun hn => h.2 ⟨⟨k, rfl⟩, hn⟩⟩

end LumbreExt.Lib
