import LumbreExt.Lib.PowerOfTwo
import LumbreExt.Ringbuf.Sequential
import Mathlib.Algebra.Ring.Int.Defs

/-!
# The capacities that `init` stores

`lumbre_ringbuf_init` for every requested capacity, and what `lumbre_ringbuf_write` computes on each
of the rings it yields.

* `toNat_lumbreNextPowerOf2` — the rounding of a `uint32_t` is the least power of two, modulo
  `2 ^ 32`. Above `2 ^ 31` that is `0`.
* `sizedFor_iff` — the configured size yields a ring for it exactly up to `2 ^ 31`: the cast and the
  rounding turn any larger one into a smaller ring.
* `spaceExact_iff` — the space arithmetic of a write is that of the integers exactly for requested
  capacities from `3` to `2 ^ 31`. On a smaller ring the overflow guard itself wraps.
-/

namespace LumbreExt

open Lib

/-! ## Rounding -/

/-- `LUMBRE_IS_POWER_OF_TWO` tests for a power of two. -/
lemma lumbreIsPowerOfTwo_iff (n : UInt32) :
    lumbreIsPowerOfTwo n = true ↔ ∃ k, n.toNat = 2 ^ k := by
  constructor
  · intro htest
    rw [lumbreIsPowerOfTwo, Bool.and_eq_true, bne_iff_ne, beq_iff_eq] at htest
    obtain ⟨hne, hand⟩ := htest
    have hpos : 0 < n.toNat := by
      rw [Nat.pos_iff_ne_zero]
      exact fun hzero => hne (UInt32.toNat_inj.mp hzero)
    have hone : (1 : UInt32) ≤ n := UInt32.le_iff_toNat_le.mpr hpos
    have hnat : n.toNat &&& (n.toNat - 1) = 0 := by
      have htoNat := congrArg UInt32.toNat hand
      rwa [UInt32.toNat_and, UInt32.toNat_sub_of_le _ _ hone] at htoNat
    exact (Nat.and_sub_one_eq_zero_iff_isPowerOfTwo (by omega)).mp hnat
  · rintro ⟨k, hk⟩
    exact lumbreIsPowerOfTwo_of_toNat hk

/-- One line `v |= v >> s` of the source is one round of smearing. -/
lemma toNat_smear_succ {v s : UInt32} {k x : ℕ} (hv : v.toNat = smear k x) (hs : s.toNat = 2 ^ k)
    (hlt : 2 ^ k < 32) : (v ||| (v >>> s)).toNat = smear (k + 1) x := by
  rw [UInt32.toNat_or, UInt32.toNat_shiftRight, hs, Nat.mod_eq_of_lt hlt, hv, smear]

/-- **The rounding is the least power of two, modulo `2 ^ 32`.** -/
lemma toNat_lumbreNextPowerOf2 {v : UInt32} (hv : 0 < v.toNat) :
    ∃ c, IsCeilPow c v.toNat ∧ (lumbreNextPowerOf2 v).toNat = c % 2 ^ 32 := by
  have hlt : v.toNat < 2 ^ 32 := v.toNat_lt
  have hne : v ≠ 0 := by
    rintro rfl
    exact absurd hv (by decide)
  unfold lumbreNextPowerOf2
  rw [if_neg hne]
  by_cases htest : lumbreIsPowerOfTwo v = true
  · obtain ⟨k, hk⟩ := (lumbreIsPowerOfTwo_iff v).mp htest
    refine ⟨v.toNat, ?_, ?_⟩
    · rw [hk]
      exact isCeilPow_two_pow k
    · rw [if_pos htest, Nat.mod_eq_of_lt hlt]
  · refine ⟨smear 5 (v.toNat - 1) + 1, isCeilPow_smear hv (by omega), ?_⟩
    have hone : (1 : UInt32) ≤ v := UInt32.le_iff_toNat_le.mpr hv
    have h0 : (v - 1).toNat = smear 0 (v.toNat - 1) := UInt32.toNat_sub_of_le _ _ hone
    have h1 := toNat_smear_succ (s := 1) h0 rfl (by decide)
    have h2 := toNat_smear_succ (s := 2) h1 rfl (by decide)
    have h3 := toNat_smear_succ (s := 4) h2 rfl (by decide)
    have h4 := toNat_smear_succ (s := 8) h3 rfl (by decide)
    have h5 := toNat_smear_succ (s := 16) h4 rfl (by decide)
    rw [if_neg htest, UInt32.toNat_add, h5]
    rfl

/-- Up to `2 ^ 31` the rounding is exact. -/
lemma isCeilPow_lumbreNextPowerOf2 {v : UInt32} (hv : 0 < v.toNat) (hle : v.toNat ≤ 2 ^ 31) :
    IsCeilPow (lumbreNextPowerOf2 v).toNat v.toNat := by
  obtain ⟨c, hc, htoNat⟩ := toNat_lumbreNextPowerOf2 hv
  have hcLe := (hc.le_two_pow_iff 31).mpr hle
  rwa [htoNat, Nat.mod_eq_of_lt (by omega)]

/-- Above `2 ^ 31` the rounding is `0`: the increment wraps. -/
lemma lumbreNextPowerOf2_eq_zero {v : UInt32} (hlt : 2 ^ 31 < v.toNat) :
    lumbreNextPowerOf2 v = 0 := by
  have hv32 : v.toNat < 2 ^ 32 := v.toNat_lt
  obtain ⟨c, hc, htoNat⟩ := toNat_lumbreNextPowerOf2 (v := v) (by omega)
  have hc32 := (hc.le_two_pow_iff 32).mpr (Nat.le_of_lt hv32)
  have hc31 := mt (hc.le_two_pow_iff 31).mp (by omega)
  obtain ⟨k, rfl⟩ := hc.exists_eq
  have hk32 : k ≤ 32 := (Nat.pow_le_pow_iff_right (by decide)).mp hc32
  have hk31 : ¬ k ≤ 31 := fun hk => hc31 (Nat.pow_le_pow_right (by decide) hk)
  obtain rfl : k = 32 := by omega
  apply UInt32.toNat_inj.mp
  rw [htoNat]
  rfl

/-! ## The configured size -/

/-- The ring is the one for `n` bytes: the least sufficient power of two, the mask of its positions,
and the mapping that holds it. -/
structure LumbreRingbuf.SizedFor (rb : LumbreRingbuf) (n : ℕ) : Prop where
  capacity : IsCeilPow rb.capacity.toNat n
  mask : rb.mask.toNat + 1 = rb.capacity.toNat
  position : ∀ p : UInt64, (p &&& rb.mask.toUInt64).toNat = p.toNat % rb.capacity.toNat
  mmapSize : rb.mmapSize.toNat = 64 + rb.capacity.toNat

/-- A ring whose capacity was rounded exactly. -/
lemma sizedFor_openRing {fd : ℤ} {path : List UInt8} {pid : UInt32} {workerId : UInt64}
    {capacity : UInt32} {n : ℕ} (hcap : IsCeilPow capacity.toNat n) :
    (openRing fd path pid workerId capacity).SizedFor n := by
  obtain ⟨k, hk⟩ := hcap.exists_eq
  have hg : Geometry (openRing fd path pid workerId capacity) k := Geometry.openRing hk
  have hpos := Nat.two_pow_pos k
  have hle := hg.capacity_le
  refine ⟨hcap, ?_, ?_, ?_⟩
  · rw [hg.mask, hg.capacity, Nat.sub_add_cancel hpos]
  · intro p
    have hmask : (openRing fd path pid workerId capacity).mask.toUInt64.toNat = 2 ^ k - 1 := by
      rw [UInt32.toNat_toUInt64, hg.mask]
    rw [toNat_and_mask hmask, hg.capacity]
  · change (lumbreRingbufHeaderSize.toUInt64 + capacity.toUInt64).toNat = 64 + capacity.toNat
    rw [UInt64.toNat_add, UInt32.toNat_toUInt64, UInt32.toNat_toUInt64, hk]
    change (64 + 2 ^ k) % 2 ^ 64 = _
    omega

/-- The cast of a configured size to `uint32_t`. -/
lemma toNat_toUInt32_of_pos {n : Int64} (hn : 1 ≤ n.toInt) :
    n.toUInt64.toUInt32.toNat = n.toInt.toNat % 2 ^ 32 := by
  have hnonneg : 0 ≤ n := Int64.le_iff_toInt_le.mpr (le_trans (by decide) hn)
  rw [UInt64.toNat_toUInt32, Int64.toNat_toUInt64_of_le hnonneg]
  rfl

/-- **The configured size yields a ring for it exactly up to `2 ^ 31`.** For every value of
`lumbre.buffer_size` from `1` on and every successful initialisation with its cast. -/
theorem sizedFor_iff {n : Int64} (hn : 1 ≤ n.toInt) {rb : LumbreRingbuf}
    (hinit : Initialised n.toUInt64.toUInt32 rb) :
    rb.SizedFor n.toInt.toNat ↔ n.toInt ≤ 2 ^ 31 := by
  obtain ⟨fd, path, pid, workerId, rfl⟩ := hinit.eq_openRing
  have hcast := toNat_toUInt32_of_pos hn
  constructor
  · intro h
    have hle := h.capacity.le
    obtain ⟨k, hk⟩ := h.capacity.exists_eq
    have hcapLe := two_pow_le_of_toNat hk
    omega
  · intro hle
    have hsame : n.toUInt64.toUInt32.toNat = n.toInt.toNat := by
      rw [hcast, Nat.mod_eq_of_lt (by omega)]
    apply sizedFor_openRing
    rw [← hsame]
    exact isCeilPow_lumbreNextPowerOf2 (by omega) (by omega)

/-- The configured size of the tests, `3000`, yields a ring of 4096 bytes. -/
theorem sizedFor_iff_3000 : (freshRing 3000).SizedFor 3000 :=
  (sizedFor_iff (n := 3000) (by decide) (initialised_freshRing 3000)).mpr (by decide)

/-- The configured size `2 ^ 31 + 1` is accepted, with a capacity of `0`. -/
theorem sizedFor_beyond_limit :
    Initialised (2147483649 : Int64).toUInt64.toUInt32 (freshRing 2147483649) ∧
      (freshRing 2147483649).capacity = 0 ∧ ¬ (freshRing 2147483649).SizedFor 2147483649 := by
  refine ⟨initialised_freshRing 2147483649, by decide, fun h => ?_⟩
  exact absurd h.capacity.le (by decide)

/-! ## The space arithmetic of a write -/

/-- An unsigned computation of C: the width of its type, and its value over the integers. -/
structure Computation where
  width : ℕ
  exact : ℤ

/-- The C type does not hold the value. -/
def Computation.Wraps (x : Computation) : Prop := ¬ (0 ≤ x.exact ∧ x.exact < 2 ^ x.width)

/-- The sums and differences of sizes that a call evaluates, in the order of the source, each from
the values its operands have there: `capacity - 4`, `4 + payload_len`, `used + needed`,
`offset + needed`, `capacity - offset`, `used + pad_bytes + needed`.
Source: `lumbre_ringbuf.c`, `lumbre_ringbuf_write` -/
def writeComputations (rb : LumbreRingbuf) (readPos : UInt64) (payloadLen : UInt32) :
    List Computation :=
  ⟨32, rb.capacity.toNat - 4⟩ ::
    if payloadLen > rb.capacity - 4 then []
    else
      let needed : UInt32 := 4 + payloadLen
      let used := rb.localWritePos - readPos
      ⟨32, 4 + payloadLen.toNat⟩ :: ⟨64, used.toNat + needed.toNat⟩ ::
        if used + needed.toUInt64 > rb.capacity.toUInt64 then []
        else
          let offset := (rb.localWritePos &&& rb.mask.toUInt64).toUInt32
          ⟨32, offset.toNat + needed.toNat⟩ ::
            if offset + needed > rb.capacity then
              let padBytes := rb.capacity - offset
              [⟨32, rb.capacity.toNat - offset.toNat⟩, ⟨64, used.toNat + padBytes.toNat⟩,
                ⟨64, (used + padBytes.toUInt64).toNat + needed.toNat⟩]
            else []

/-- No computation of the call wraps, and it accepts only what fits next to the unread bytes. -/
structure SpaceExact (rb : LumbreRingbuf) (c : WriteCall) : Prop where
  not_wraps : ∀ x ∈ writeComputations rb c.readPos c.payloadLen, ¬ x.Wraps
  fits : (c.ops rb).1 = 0 → rb.used c.readPos + (4 + c.payloadLen.toNat) ≤ rb.capacity.toNat

/-- The machine of the rings with this capacity argument under calls that find any value in
`header->read_pos`. -/
def callMachine (capacity : UInt32) : Machine LumbreRingbuf WriteCall where
  Start := Initialised capacity
  step rb c := some (c.after rb)

/-- No access changes the capacity or the mask. -/
lemma LumbreRingbuf.execAll_capacity_mask (rb : LumbreRingbuf) (ops : List WriteOp) :
    (rb.execAll ops).capacity = rb.capacity ∧ (rb.execAll ops).mask = rb.mask := by
  induction ops generalizing rb with
  | nil => exact ⟨rfl, rfl⟩
  | cons op ops ih =>
      have hop : (rb.exec op).capacity = rb.capacity ∧ (rb.exec op).mask = rb.mask := by
        cases op <;> exact ⟨rfl, rfl⟩
      exact ⟨(ih (rb.exec op)).1.trans hop.1, (ih (rb.exec op)).2.trans hop.2⟩

/-- Every reachable ring has the capacity and the mask that `init` stored. -/
lemma capacity_mask_of_reachable {capacity : UInt32} {rb : LumbreRingbuf}
    (h : (callMachine capacity).Reachable rb) :
    rb.capacity = lumbreNextPowerOf2 capacity ∧ rb.mask = lumbreNextPowerOf2 capacity - 1 := by
  refine h.invariant (I := fun rb => rb.capacity = lumbreNextPowerOf2 capacity ∧
    rb.mask = lumbreNextPowerOf2 capacity - 1) ?_ ?_
  · intro rb hinit
    obtain ⟨fd, path, pid, workerId, rfl⟩ := hinit.eq_openRing
    exact ⟨rfl, rfl⟩
  · intro rb c rb' hrb hstep
    obtain rfl := Option.some.inj hstep
    have hafter := (rb.withReadPos c.readPos).execAll_capacity_mask
      (lumbreRingbufWriteOps (rb.withReadPos c.readPos) c.readPos c.payload c.payloadLen).2
    exact ⟨hafter.1.trans hrb.1, hafter.2.trans hrb.2⟩

/-- The stored capacity is at least `4` exactly for requests from `3` to `2 ^ 31`. -/
lemma four_le_lumbreNextPowerOf2_iff (v : UInt32) :
    4 ≤ (lumbreNextPowerOf2 v).toNat ↔ 3 ≤ v.toNat ∧ v.toNat ≤ 2 ^ 31 := by
  constructor
  · intro hfour
    refine ⟨?_, ?_⟩
    · by_contra hsmall
      have hcases : v.toNat = 0 ∨ v.toNat = 1 ∨ v.toNat = 2 := by omega
      rcases hcases with hv | hv | hv
      · obtain rfl : v = 0 := UInt32.toNat_inj.mp hv
        exact absurd hfour (by decide)
      · obtain rfl : v = 1 := UInt32.toNat_inj.mp hv
        exact absurd hfour (by decide)
      · obtain rfl : v = 2 := UInt32.toNat_inj.mp hv
        exact absurd hfour (by decide)
    · by_contra hlarge
      rw [lumbreNextPowerOf2_eq_zero (by omega)] at hfour
      exact absurd hfour (by decide)
  · rintro ⟨hlow, hhigh⟩
    have hceil := isCeilPow_lumbreNextPowerOf2 (by omega) hhigh
    have hle := hceil.le
    obtain ⟨k, hk⟩ := hceil.exists_eq
    rw [hk] at hle ⊢
    have hk2 : 2 ≤ k := by
      by_contra hsmall
      have hpow : 2 ^ k ≤ 2 ^ 1 := Nat.pow_le_pow_right (by decide) (by omega)
      omega
    exact Nat.pow_le_pow_right (show 0 < 2 by decide) hk2

/-- A value the type holds. -/
lemma not_wraps_of_lt {w : ℕ} {x : ℤ} (h : 0 ≤ x) (hlt : x < 2 ^ w) :
    ¬ (Computation.mk w x).Wraps :=
  fun hwraps => hwraps ⟨h, hlt⟩

/-- On a ring of `2 ^ k ≥ 4` bytes no computation wraps. -/
lemma Geometry.not_wraps {rb : LumbreRingbuf} {k : ℕ} (hg : Geometry rb k) (hk : 2 ≤ k)
    {readPos : UInt64} (hused : rb.used readPos ≤ 2 ^ k) (payloadLen : UInt32) :
    ∀ x ∈ writeComputations rb readPos payloadLen, ¬ x.Wraps := by
  have hfour : 2 ^ 2 ≤ 2 ^ k := Nat.pow_le_pow_right (by decide) hk
  have hcapLe := hg.capacity_le
  have hoffset : (rb.localWritePos &&& rb.mask.toUInt64).toUInt32.toNat = rb.offset := by
    rw [hg.toNat_offset, LumbreRingbuf.offset, hg.capacity]
  have hoffLt := hg.offset_lt
  have husedEq : (rb.localWritePos - readPos).toNat = rb.used readPos := rfl
  intro x hx
  rw [writeComputations, hg.capacity] at hx
  dsimp only at hx
  generalize (rb.localWritePos &&& rb.mask.toUInt64).toUInt32 = offset at hoffset hx
  rcases List.mem_cons.mp hx with rfl | hx
  · exact not_wraps_of_lt (by omega) (by omega)
  by_cases hlong : payloadLen > rb.capacity - 4
  · rw [if_pos hlong] at hx
    exact absurd hx List.not_mem_nil
  have hfit : 4 + payloadLen.toNat ≤ 2 ^ k :=
    Nat.le_of_not_lt (mt (hg.tooLong_iff hk payloadLen).mpr hlong)
  have hneeded := hg.toNat_needed hfit
  rw [if_neg hlong, hneeded, husedEq] at hx
  rcases List.mem_cons.mp hx with rfl | hx
  · exact not_wraps_of_lt (by omega) (by omega)
  rcases List.mem_cons.mp hx with rfl | hx
  · exact not_wraps_of_lt (by omega) (by omega)
  by_cases hfull : (rb.localWritePos - readPos) + (4 + payloadLen).toUInt64 >
      rb.capacity.toUInt64
  · rw [if_pos hfull] at hx
    exact absurd hx List.not_mem_nil
  rw [if_neg hfull] at hx
  rcases List.mem_cons.mp hx with rfl | hx
  · -- at most `2 ^ 32 - 1`, since the offset is below the capacity
    rw [hoffset]
    exact not_wraps_of_lt (by omega) (by omega)
  by_cases hstraddles : offset + (4 + payloadLen) > rb.capacity
  · have hpad := hg.toNat_padBytes hoffset
    have hsum : (rb.localWritePos - readPos + (rb.capacity - offset).toUInt64).toNat =
        rb.used readPos + (2 ^ k - rb.offset) := by
      rw [UInt64.toNat_add, husedEq, UInt32.toNat_toUInt64, hpad]
      exact Nat.mod_eq_of_lt (by omega)
    rw [if_pos hstraddles, hsum, hpad, hoffset] at hx
    rcases List.mem_cons.mp hx with rfl | hx
    · exact not_wraps_of_lt (by omega) (by omega)
    rcases List.mem_cons.mp hx with rfl | hx
    · exact not_wraps_of_lt (by omega) (by omega)
    obtain rfl := List.mem_singleton.mp hx
    exact not_wraps_of_lt (by omega) (by omega)
  · rw [if_neg hstraddles] at hx
    exact absurd hx List.not_mem_nil

/-- There an accepted message fits next to the unread bytes. -/
lemma Geometry.fits {rb : LumbreRingbuf} {k : ℕ} (hg : Geometry rb k) (hk : 2 ≤ k) {c : WriteCall}
    (hused : rb.used c.readPos ≤ 2 ^ k) (hrc : (c.ops rb).1 = 0) :
    rb.used c.readPos + (4 + c.payloadLen.toNat) ≤ 2 ^ k := by
  have hcapLe := hg.capacity_le
  rcases lumbreRingbufWriteOps_cases hg hk c.readPos c.payload c.payloadLen with
    ⟨_, hops⟩ | ⟨⟨hfit, hspace, _⟩, _⟩ | ⟨⟨hfit, hspace, _, _⟩, _⟩
  · rw [WriteCall.ops, hops] at hrc
    exact absurd hrc (by decide)
  · rwa [Nat.mod_eq_of_lt (by omega)] at hspace
  · rwa [Nat.mod_eq_of_lt (by omega)] at hspace

/-- **The space arithmetic of a write is exact exactly for requested capacities from `3` to
`2 ^ 31`.** On every reachable ring, for every read position with no more than the capacity unread
and every message. -/
theorem spaceExact_iff {capacity : UInt32} {rb : LumbreRingbuf}
    (h : (callMachine capacity).Reachable rb) {c : WriteCall}
    (hused : rb.used c.readPos ≤ rb.capacity.toNat) :
    SpaceExact rb c ↔ 3 ≤ capacity.toNat ∧ capacity.toNat ≤ 2 ^ 31 := by
  obtain ⟨hcap, hmask⟩ := capacity_mask_of_reachable h
  constructor
  · intro hexact
    rw [← four_le_lumbreNextPowerOf2_iff, ← hcap]
    by_contra hsmall
    -- the guard's own subtraction
    refine hexact.not_wraps _ (List.mem_cons_self ..) ?_
    rintro ⟨hnonneg, _⟩
    dsimp only at hnonneg
    omega
  · intro hrange
    have hfour := (four_le_lumbreNextPowerOf2_iff capacity).mpr hrange
    obtain ⟨k, hk⟩ := (isCeilPow_lumbreNextPowerOf2 (by omega) hrange.2).exists_eq
    have hg : Geometry rb k := by
      rw [← hcap] at hk
      have hopen : Geometry (openRing 0 [] 0 0 rb.capacity) k := Geometry.openRing hk
      refine ⟨hk, ?_⟩
      rw [hmask, ← hcap]
      exact hopen.mask
    have hk2 : 2 ≤ k := by
      rw [hk] at hfour
      exact (Nat.pow_le_pow_iff_right (show 1 < 2 by decide)).mp hfour
    rw [hg.capacity] at hused
    refine ⟨hg.not_wraps hk2 hused c.payloadLen, fun hrc => ?_⟩
    rw [hg.capacity]
    exact hg.fits hk2 hused hrc

/-- On a ring of 8 bytes, a message of four bytes. -/
theorem spaceExact_iff_four_bytes : SpaceExact (freshRing 8) ⟨0, fun _ => 7, 4⟩ :=
  (spaceExact_iff (.start (initialised_freshRing 8)) (by decide)).mpr (by decide)

/-- A ring of one byte accepts a message of `2 ^ 32 - 4` bytes: `capacity - 4` wraps past it, and
`4 + payload_len` wraps to `0`. -/
theorem one_byte_ring_accepts :
    (callMachine 1).Reachable (freshRing 1) ∧ (freshRing 1).used 0 ≤ (freshRing 1).capacity.toNat ∧
      (lumbreRingbufWrite (freshRing 1) (fun _ => 0) 4294967292).1 = 0 ∧
      ¬ SpaceExact (freshRing 1) ⟨0, fun _ => 0, 4294967292⟩ := by
  refine ⟨.start (initialised_freshRing 1), by decide, rfl, fun h => ?_⟩
  exact absurd (h.fits rfl) (by decide)

end LumbreExt
