import Mathlib.Algebra.Ring.Nat
import Mathlib.Tactic.Common

/-!
# Machine words as counters and masks

Facts about `UInt32` and `UInt64` arithmetic that hold at every word, stated through `toNat`:
masking with `2 ^ k - 1` is reduction modulo `2 ^ k`, and the wrapping difference of two counters
is their true difference as long as that difference itself fits the word.
-/

namespace LumbreExt.Lib

/-- Masking a word with `2 ^ k - 1` reduces it modulo `2 ^ k`. -/
lemma toNat_and_mask {x m : UInt64} {k : ℕ} (hm : m.toNat = 2 ^ k - 1) :
    (x &&& m).toNat = x.toNat % 2 ^ k := by
  rw [UInt64.toNat_and, hm, Nat.and_two_pow_sub_one_eq_mod]

/-- A power of two that a `uint32_t` holds is at most `2 ^ 31`. -/
lemma two_pow_le_of_toNat {x : UInt32} {k : ℕ} (hx : x.toNat = 2 ^ k) : 2 ^ k ≤ 2 ^ 31 := by
  have hlt : 2 ^ k < 2 ^ 32 := by
    rw [← hx]
    exact x.toNat_lt
  have hk : k < 32 := (Nat.pow_lt_pow_iff_right (by decide)).mp hlt
  exact Nat.pow_le_pow_right (by decide) (by omega)

/-- The value of a counter that has counted `n` modulo `2 ^ 64`. -/
@[simp] lemma toNat_counter (n : ℕ) : (UInt64.ofNat n).toNat = n % 2 ^ 64 :=
  UInt64.toNat_ofNat'

/-- The wrapping difference of two counters is their true difference. -/
lemma toNat_counter_sub {w r : ℕ} (hle : r ≤ w) (hlt : w - r < 2 ^ 64) :
    (UInt64.ofNat w - UInt64.ofNat r).toNat = w - r := by
  rw [UInt64.toNat_sub, toNat_counter, toNat_counter]
  omega

/-- Two counters less than `2 ^ 64` apart that show the same value are equal. -/
lemma eq_of_counter_eq {w r : ℕ} (hle : r ≤ w) (hlt : w - r < 2 ^ 64)
    (h : UInt64.ofNat w = UInt64.ofNat r) : w = r := by
  have hmod := congrArg UInt64.toNat h
  rw [toNat_counter, toNat_counter] at hmod
  omega

/-- Advancing a counter. -/
lemma counter_add (n : ℕ) (d : UInt64) :
    UInt64.ofNat n + d = UInt64.ofNat (n + d.toNat) := by
  apply UInt64.toNat_inj.mp
  rw [UInt64.toNat_add, toNat_counter, toNat_counter]
  omega

/-- A counter modulo a power of two that divides the word size. -/
lemma counter_mod_two_pow {k : ℕ} (hk : k ≤ 64) (n : ℕ) :
    (UInt64.ofNat n).toNat % 2 ^ k = n % 2 ^ k := by
  rw [toNat_counter]
  exact Nat.mod_mod_of_dvd n (Nat.pow_dvd_pow 2 hk)

/-- A counter advanced by `n`, modulo a power of two that divides the word size. -/
lemma toNat_add_counter_mod {k : ℕ} (hk : k ≤ 64) (x : UInt64) (n : ℕ) :
    (x + UInt64.ofNat n).toNat % 2 ^ k = (x.toNat + n) % 2 ^ k := by
  have hdvd : 2 ^ k ∣ 2 ^ 64 := Nat.pow_dvd_pow 2 hk
  rw [UInt64.toNat_add, toNat_counter, Nat.mod_mod_of_dvd _ hdvd, Nat.add_mod,
    Nat.mod_mod_of_dvd _ hdvd, ← Nat.add_mod]

/-- Setting bits below a tag whose low bits are clear adds them. -/
lemma toNat_tag_or {t x : UInt32} {a i : ℕ} (ht : t.toNat = 2 ^ i * a)
    (hx : x.toNat < 2 ^ i) : (t ||| x).toNat = t.toNat + x.toNat := by
  rw [UInt32.toNat_or, ht, ← Nat.two_pow_add_eq_or_of_lt hx]

end LumbreExt.Lib
