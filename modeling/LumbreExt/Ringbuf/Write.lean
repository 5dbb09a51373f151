import LumbreExt.Lib.FrameRing
import LumbreExt.Lib.Word
import LumbreExt.Ringbuf.Basic

/-!
# What one write does

The inversion of `lumbreRingbufWriteOps`: on a ring of `2 ^ k ≥ 4` bytes a call either refuses the
message and counts it, or stores one frame, or stores a padding marker and then the frame at offset
`0` (`lumbreRingbufWriteOps_cases`). The three guards of the source appear as `Refused`, `Straight`
and `Wrapped`, statements about natural numbers in which the two 64-bit sums still wrap. Every later
result about writes goes through this theorem.

On any ring whatsoever the return value depends on the length of the payload alone
(`lumbreRingbufWrite_eq_zero_iff`).
-/

namespace LumbreExt

open Lib

/-! ## Geometry -/

/-- The handle of a ring of `2 ^ k` data bytes. -/
structure Geometry (rb : LumbreRingbuf) (k : ℕ) : Prop where
  capacity : rb.capacity.toNat = 2 ^ k
  mask : rb.mask.toNat = 2 ^ k - 1

namespace Geometry

variable {rb : LumbreRingbuf} {k : ℕ}

lemma capacity_le (h : Geometry rb k) : 2 ^ k ≤ 2 ^ 31 :=
  two_pow_le_of_toNat h.capacity

lemma k_le (h : Geometry rb k) : k ≤ 31 :=
  (Nat.pow_le_pow_iff_right (by decide)).mp h.capacity_le

/-- No access of the producer changes the geometry. -/
lemma exec (h : Geometry rb k) (op : WriteOp) : Geometry (rb.exec op) k := by
  cases op <;> exact ⟨h.capacity, h.mask⟩

lemma execAll (h : Geometry rb k) (ops : List WriteOp) : Geometry (rb.execAll ops) k := by
  induction ops generalizing rb with
  | nil => exact h
  | cons op ops ih => exact ih (h.exec op)

/-- `pos & mask` is the position modulo the capacity. -/
lemma toNat_offset (h : Geometry rb k) (pos : UInt64) :
    (pos &&& rb.mask.toUInt64).toUInt32.toNat = pos.toNat % 2 ^ k := by
  have hmask : rb.mask.toUInt64.toNat = 2 ^ k - 1 := by
    rw [UInt32.toNat_toUInt64, h.mask]
  have hlt : pos.toNat % 2 ^ k < 2 ^ k := Nat.mod_lt _ (Nat.two_pow_pos k)
  have hcap := h.capacity_le
  rw [UInt64.toNat_toUInt32, toNat_and_mask hmask]
  omega

/-- What `lumbre_ringbuf_init` stores for a power of two. -/
lemma openRing {fd : ℤ} {path : List UInt8} {pid : UInt32} {workerId : UInt64}
    {capacity : UInt32} (hcap : capacity.toNat = 2 ^ k) :
    Geometry (openRing fd path pid workerId capacity) k := by
  refine ⟨hcap, ?_⟩
  have hpos := Nat.two_pow_pos k
  have hone : (1 : UInt32) ≤ capacity := by
    rw [UInt32.le_iff_toNat_le, hcap, UInt32.toNat_one]
    exact hpos
  change (capacity - 1).toNat = 2 ^ k - 1
  rw [UInt32.toNat_sub_of_le _ _ hone, hcap, UInt32.toNat_one]

end Geometry

/-! ## Initialised rings -/

/-- `rb` is what some successful `lumbre_ringbuf_init` with this capacity argument produced. -/
def Initialised (capacity : UInt32) (rb : LumbreRingbuf) : Prop :=
  ∃ ans os os' shmDir pid workerId,
    lumbreRingbufInit ans os shmDir pid workerId capacity = (os', some rb)

/-- A successful initialisation fills the handle for the rounded capacity. -/
lemma Initialised.eq_openRing {capacity : UInt32} {rb : LumbreRingbuf}
    (h : Initialised capacity rb) :
    ∃ fd path pid workerId,
      rb = LumbreExt.openRing fd path pid workerId (lumbreNextPowerOf2 capacity) := by
  obtain ⟨ans, os, os', shmDir, pid, workerId, hinit⟩ := h
  simp only [lumbreRingbufInit] at hinit
  by_cases hpath : ringPathSize ≤ (ringPath shmDir pid workerId).length
  · rw [if_pos hpath] at hinit
    simp at hinit
  rw [if_neg hpath] at hinit
  cases hfd : ans.fd with
  | none => simp [hfd] at hinit
  | some fd =>
      simp only [hfd] at hinit
      by_cases hfail : (!ans.ftruncateOk || !ans.mmapOk) = true
      · rw [if_pos hfail] at hinit
        simp at hinit
      · rw [if_neg hfail] at hinit
        simp only [Prod.mk.injEq, Option.some.injEq] at hinit
        exact ⟨fd, _, pid, workerId, hinit.2.symm⟩

lemma lumbreIsPowerOfTwo_of_toNat {n : UInt32} {k : ℕ} (hn : n.toNat = 2 ^ k) :
    lumbreIsPowerOfTwo n = true := by
  have hpos := Nat.two_pow_pos k
  have hone : (1 : UInt32) ≤ n := by
    rw [UInt32.le_iff_toNat_le, hn, UInt32.toNat_one]
    exact hpos
  have hne : n ≠ 0 := by
    rintro rfl
    rw [UInt32.toNat_zero] at hn
    omega
  have hand : n &&& (n - 1) = 0 := by
    apply UInt32.toNat_inj.mp
    rw [UInt32.toNat_and, UInt32.toNat_sub_of_le _ _ hone, hn, UInt32.toNat_one,
      Nat.and_two_pow_sub_one_eq_mod, Nat.mod_self]
    rfl
  simp [lumbreIsPowerOfTwo, hne, hand]

/-- A power of two is not rounded. -/
lemma lumbreNextPowerOf2_of_toNat {n : UInt32} {k : ℕ} (hn : n.toNat = 2 ^ k) :
    lumbreNextPowerOf2 n = n := by
  have hne : n ≠ 0 := by
    rintro rfl
    have hpos := Nat.two_pow_pos k
    rw [UInt32.toNat_zero] at hn
    omega
  rw [lumbreNextPowerOf2, if_neg hne, if_pos (lumbreIsPowerOfTwo_of_toNat hn)]

/-- The ring a power-of-two capacity initialises. -/
lemma Initialised.eq_openRing_of_toNat {capacity : UInt32} {rb : LumbreRingbuf} {k : ℕ}
    (h : Initialised capacity rb) (hcap : capacity.toNat = 2 ^ k) :
    ∃ fd path pid workerId, rb = LumbreExt.openRing fd path pid workerId capacity := by
  obtain ⟨fd, path, pid, workerId, hrb⟩ := h.eq_openRing
  rw [lumbreNextPowerOf2_of_toNat hcap] at hrb
  exact ⟨fd, path, pid, workerId, hrb⟩

lemma Initialised.geometry {capacity : UInt32} {rb : LumbreRingbuf} {k : ℕ}
    (h : Initialised capacity rb) (hcap : capacity.toNat = 2 ^ k) : Geometry rb k := by
  obtain ⟨fd, path, pid, workerId, rfl⟩ := h.eq_openRing_of_toNat hcap
  exact Geometry.openRing hcap

/-! ## Frames of the ring -/

/-- The framing of the ring: a little-endian `uint32_t` length, `0xFFFFFFFF` as padding marker. -/
def ringFormat : FrameFormat where
  width := 4
  encodeLen n := leBytes 4 n
  mark := 0xFF
  length_encodeLen n := leBytes_length 4 n
  width_pos := by decide

@[simp] lemma ringFormat_width : ringFormat.width = 4 := rfl

@[simp] lemma ringFormat_mark : ringFormat.mark = 0xFF := rfl

lemma le32_paddingMarker : le32 lumbreRingbufPaddingMarker = ringFormat.marker := by decide

/-- The stores of one message at offset `a`, then the advance and the publication. -/
def frameOps (a : ℕ) (msg : List UInt8) : List WriteOp :=
  (copyStores a (ringFormat.frame msg)).map .storeData ++
    [.addLocalWritePos (UInt64.ofNat (4 + msg.length)), .storeWritePos]

/-- The stores of a padding marker at offset `a` and the advance over the padding. -/
def padOps (a pad : ℕ) : List WriteOp :=
  (copyStores a ringFormat.marker).map .storeData ++ [.addLocalWritePos (UInt64.ofNat pad)]

/-! ## Performing the accesses -/

lemma LumbreRingbuf.execAll_append (rb : LumbreRingbuf) (ops ops' : List WriteOp) :
    rb.execAll (ops ++ ops') = (rb.execAll ops).execAll ops' :=
  List.foldl_append

lemma LumbreRingbuf.execAll_map_storeData (rb : LumbreRingbuf) (ss : List (ℕ × UInt8)) :
    rb.execAll (ss.map .storeData) = { rb with data := rb.data.storeAll ss } := by
  induction ss generalizing rb with
  | nil => rfl
  | cons s ss ih => exact ih { rb with data := rb.data.store s }

/-- A whole frame is stored, then the position advances and is published. -/
lemma LumbreRingbuf.execAll_frameOps (rb : LumbreRingbuf) (a : ℕ) (msg : List UInt8) :
    rb.execAll (frameOps a msg) =
      { rb with
        data := rb.data.storeAll (copyStores a (ringFormat.frame msg))
        localWritePos := rb.localWritePos + UInt64.ofNat (4 + msg.length)
        header.writePos := rb.localWritePos + UInt64.ofNat (4 + msg.length) } := by
  rw [frameOps, execAll_append, execAll_map_storeData]
  simp only [execAll, List.foldl_cons, List.foldl_nil, exec]

/-! ## The guards, on natural numbers

`C` is the capacity, `o` the write offset, `u` the difference of the write position and the read
position the call saw, `n` the payload length. -/

/-- Neither the message alone nor the message with its padding fits. -/
def Refused (C o u n : ℕ) : Prop :=
  C < 4 + n ∨ C < (u + (4 + n)) % 2 ^ 64 ∨
    C < o + (4 + n) ∧ C < (u + (C - o) + (4 + n)) % 2 ^ 64

/-- The message is taken and fits before the end of the ring. -/
def Straight (C o u n : ℕ) : Prop :=
  4 + n ≤ C ∧ (u + (4 + n)) % 2 ^ 64 ≤ C ∧ o + (4 + n) ≤ C

/-- The message is taken at offset `0`, behind a padding marker. -/
def Wrapped (C o u n : ℕ) : Prop :=
  4 + n ≤ C ∧ (u + (4 + n)) % 2 ^ 64 ≤ C ∧ C < o + (4 + n) ∧
    (u + (C - o) + (4 + n)) % 2 ^ 64 ≤ C

instance (C o u n : ℕ) : Decidable (Refused C o u n) := by
  unfold Refused
  infer_instance

/-- `rb->local_write_pos & rb->mask`. -/
def LumbreRingbuf.offset (rb : LumbreRingbuf) : ℕ :=
  rb.localWritePos.toNat % rb.capacity.toNat

/-- `rb->local_write_pos - read_pos`. -/
def LumbreRingbuf.used (rb : LumbreRingbuf) (readPos : UInt64) : ℕ :=
  (rb.localWritePos - readPos).toNat

section cases

variable {rb : LumbreRingbuf} {k : ℕ}

/-- The accesses of the common tail of both accepting branches. -/
lemma message_ops_eq {payload : Mem} {payloadLen : UInt32} (offset : UInt32)
    (hlen : payloadLen.toNat ≤ 2 ^ 31) (hoff : offset.toNat + 4 < 2 ^ 32) :
    memcpyData offset (le32 payloadLen) ++
        (if payloadLen > 0 then memcpyData (offset + 4) (payload.load 0 payloadLen.toNat)
          else []) ++
        [.addLocalWritePos (4 + payloadLen).toUInt64, .storeWritePos] =
      frameOps offset.toNat (payload.load 0 payloadLen.toNat) := by
  have hlength : (payload.load 0 payloadLen.toNat).length = payloadLen.toNat :=
    Mem.load_length payload 0 payloadLen.toNat
  have hheader : (le32 payloadLen).length = 4 := leBytes_length 4 payloadLen.toNat
  have hadd : (offset + 4).toNat = offset.toNat + 4 := by
    rw [UInt32.toNat_add]
    exact Nat.mod_eq_of_lt hoff
  have hneeded : (4 + payloadLen).toUInt64 = UInt64.ofNat (4 + payloadLen.toNat) := by
    apply UInt64.toNat_inj.mp
    rw [UInt32.toNat_toUInt64, UInt32.toNat_add, toNat_counter]
    have : (4 : UInt32).toNat = 4 := rfl
    omega
  have hpayload : (if payloadLen > 0 then
        memcpyData (offset + 4) (payload.load 0 payloadLen.toNat) else []) =
      (copyStores (offset.toNat + 4) (payload.load 0 payloadLen.toNat)).map WriteOp.storeData := by
    by_cases hpos : payloadLen > 0
    · rw [if_pos hpos, memcpyData, hadd]
    · have hzero : payloadLen.toNat = 0 := by
        rw [gt_iff_lt, UInt32.lt_iff_toNat_lt] at hpos
        simpa using hpos
      rw [if_neg hpos, hzero]
      rfl
  unfold frameOps FrameFormat.frame
  rw [hpayload, hneeded, hlength, copyStores_append, ringFormat.length_encodeLen, List.map_append]
  rfl

/-- The write offset lies in the ring. -/
lemma Geometry.offset_lt (hg : Geometry rb k) : rb.offset < 2 ^ k := by
  rw [LumbreRingbuf.offset, hg.capacity]
  exact Nat.mod_lt _ (Nat.two_pow_pos k)

/-- The first guard, which keeps `4 + payload_len` from overflowing. -/
lemma Geometry.tooLong_iff (hg : Geometry rb k) (hk : 2 ≤ k) (payloadLen : UInt32) :
    payloadLen > rb.capacity - 4 ↔ 2 ^ k < 4 + payloadLen.toNat := by
  have hfour : 2 ^ 2 ≤ 2 ^ k := Nat.pow_le_pow_right (by decide) hk
  have hfour32 : (4 : UInt32).toNat = 4 := rfl
  have hle : (4 : UInt32) ≤ rb.capacity := by
    rw [UInt32.le_iff_toNat_le, hg.capacity, hfour32]
    exact hfour
  rw [gt_iff_lt, UInt32.lt_iff_toNat_lt, UInt32.toNat_sub_of_le _ _ hle, hg.capacity, hfour32]
  omega

variable {payloadLen : UInt32}

/-- Behind the first guard, `needed` does not overflow. -/
lemma Geometry.toNat_needed (hg : Geometry rb k) (hfit : 4 + payloadLen.toNat ≤ 2 ^ k) :
    (4 + payloadLen).toNat = 4 + payloadLen.toNat := by
  have hcapLe := hg.capacity_le
  have hfour32 : (4 : UInt32).toNat = 4 := rfl
  rw [UInt32.toNat_add, hfour32]
  omega

/-- The second guard. -/
lemma Geometry.full_iff (hg : Geometry rb k) (hfit : 4 + payloadLen.toNat ≤ 2 ^ k)
    (readPos : UInt64) :
    (rb.localWritePos - readPos) + (4 + payloadLen).toUInt64 > rb.capacity.toUInt64 ↔
      2 ^ k < (rb.used readPos + (4 + payloadLen.toNat)) % 2 ^ 64 := by
  rw [gt_iff_lt, UInt64.lt_iff_toNat_lt, UInt64.toNat_add, UInt32.toNat_toUInt64,
    UInt32.toNat_toUInt64, hg.toNat_needed hfit, hg.capacity]
  rfl

/-- The test for the end of the ring. -/
lemma Geometry.straddles_iff (hg : Geometry rb k) (hfit : 4 + payloadLen.toNat ≤ 2 ^ k)
    {offset : UInt32} (hoffset : offset.toNat = rb.offset) :
    offset + (4 + payloadLen) > rb.capacity ↔ 2 ^ k < rb.offset + (4 + payloadLen.toNat) := by
  have hcapLe := hg.capacity_le
  have hlt := hg.offset_lt
  have hend : (offset + (4 + payloadLen)).toNat = rb.offset + (4 + payloadLen.toNat) := by
    rw [UInt32.toNat_add, hg.toNat_needed hfit, hoffset]
    exact Nat.mod_eq_of_lt (by omega)
  rw [gt_iff_lt, UInt32.lt_iff_toNat_lt, hend, hg.capacity]

lemma Geometry.toNat_padBytes (hg : Geometry rb k) {offset : UInt32}
    (hoffset : offset.toNat = rb.offset) : (rb.capacity - offset).toNat = 2 ^ k - rb.offset := by
  have hle : offset ≤ rb.capacity := by
    rw [UInt32.le_iff_toNat_le, hoffset, hg.capacity]
    exact Nat.le_of_lt hg.offset_lt
  rw [UInt32.toNat_sub_of_le _ _ hle, hg.capacity, hoffset]

/-- The third guard, which counts the padding too. -/
lemma Geometry.paddedFull_iff (hg : Geometry rb k) (hfit : 4 + payloadLen.toNat ≤ 2 ^ k)
    {offset : UInt32} (hoffset : offset.toNat = rb.offset) (readPos : UInt64) :
    (rb.localWritePos - readPos) + (rb.capacity - offset).toUInt64 + (4 + payloadLen).toUInt64 >
        rb.capacity.toUInt64 ↔
      2 ^ k < (rb.used readPos + (2 ^ k - rb.offset) + (4 + payloadLen.toNat)) % 2 ^ 64 := by
  rw [gt_iff_lt, UInt64.lt_iff_toNat_lt, UInt64.toNat_add, UInt64.toNat_add, UInt32.toNat_toUInt64,
    UInt32.toNat_toUInt64, UInt32.toNat_toUInt64, hg.toNat_needed hfit, hg.toNat_padBytes hoffset,
    hg.capacity, Nat.mod_add_mod]
  rfl

/-- The accesses of the padding. -/
lemma Geometry.pad_ops_eq (hg : Geometry rb k) {offset : UInt32}
    (hoffset : offset.toNat = rb.offset) :
    memcpyData offset (le32 lumbreRingbufPaddingMarker) ++
        [.addLocalWritePos (rb.capacity - offset).toUInt64] =
      padOps rb.offset (2 ^ k - rb.offset) := by
  have hcapLe := hg.capacity_le
  have hpad : (rb.capacity - offset).toUInt64 = UInt64.ofNat (2 ^ k - rb.offset) := by
    apply UInt64.toNat_inj.mp
    rw [UInt32.toNat_toUInt64, hg.toNat_padBytes hoffset, toNat_counter]
    omega
  rw [padOps, memcpyData, hpad, hoffset, le32_paddingMarker]

/-- **The three outcomes of a write.** Every guard of the source is one of the three predicates,
and the accesses are those of a refusal, of one frame, or of a padding marker and a frame. -/
theorem lumbreRingbufWriteOps_cases (hg : Geometry rb k) (hk : 2 ≤ k) (readPos : UInt64)
    (payload : Mem) (payloadLen : UInt32) :
    (Refused (2 ^ k) rb.offset (rb.used readPos) payloadLen.toNat ∧
        lumbreRingbufWriteOps rb readPos payload payloadLen = (-1, [.fetchAddDropped])) ∨
      (Straight (2 ^ k) rb.offset (rb.used readPos) payloadLen.toNat ∧
        lumbreRingbufWriteOps rb readPos payload payloadLen =
          (0, frameOps rb.offset (payload.load 0 payloadLen.toNat))) ∨
      (Wrapped (2 ^ k) rb.offset (rb.used readPos) payloadLen.toNat ∧
        lumbreRingbufWriteOps rb readPos payload payloadLen =
          (0, padOps rb.offset (2 ^ k - rb.offset) ++
            frameOps 0 (payload.load 0 payloadLen.toNat))) := by
  have hcapLe := hg.capacity_le
  have hoffset : (rb.localWritePos &&& rb.mask.toUInt64).toUInt32.toNat = rb.offset := by
    rw [hg.toNat_offset, LumbreRingbuf.offset, hg.capacity]
  have hoffLt := hg.offset_lt
  unfold lumbreRingbufWriteOps
  dsimp only
  generalize (rb.localWritePos &&& rb.mask.toUInt64).toUInt32 = offset at hoffset
  by_cases hlong : payloadLen > rb.capacity - 4
  · left
    exact ⟨Or.inl ((hg.tooLong_iff hk payloadLen).mp hlong), if_pos hlong⟩
  have hfit : 4 + payloadLen.toNat ≤ 2 ^ k :=
    Nat.le_of_not_lt (mt (hg.tooLong_iff hk payloadLen).mpr hlong)
  rw [if_neg hlong]
  by_cases hfull :
      (rb.localWritePos - readPos) + (4 + payloadLen).toUInt64 > rb.capacity.toUInt64
  · left
    exact ⟨Or.inr (Or.inl ((hg.full_iff hfit readPos).mp hfull)), if_pos hfull⟩
  have hspace := Nat.le_of_not_lt (mt (hg.full_iff hfit readPos).mpr hfull)
  rw [if_neg hfull]
  by_cases hstraddles : offset + (4 + payloadLen) > rb.capacity
  · have hend := (hg.straddles_iff hfit hoffset).mp hstraddles
    rw [if_pos hstraddles]
    by_cases hpadded : (rb.localWritePos - readPos) + (rb.capacity - offset).toUInt64 +
        (4 + payloadLen).toUInt64 > rb.capacity.toUInt64
    · left
      exact ⟨Or.inr (Or.inr ⟨hend, (hg.paddedFull_iff hfit hoffset readPos).mp hpadded⟩),
        if_pos hpadded⟩
    · right; right
      have hroom := Nat.le_of_not_lt (mt (hg.paddedFull_iff hfit hoffset readPos).mpr hpadded)
      refine ⟨⟨hfit, hspace, hend, hroom⟩, ?_⟩
      rw [if_neg hpadded, message_ops_eq 0 (by omega) (by decide), hg.pad_ops_eq hoffset]
      rfl
  · right; left
    have hend := Nat.le_of_not_lt (mt (hg.straddles_iff hfit hoffset).mpr hstraddles)
    refine ⟨⟨hfit, hspace, hend⟩, ?_⟩
    rw [if_neg hstraddles, message_ops_eq offset (by omega) (by omega), hoffset]

end cases

/-! ## The return value

These hold of every handle, whatever its capacity. -/

lemma fetchAddDropped_not_mem_memcpyData (offset : UInt32) (bs : List UInt8) :
    WriteOp.fetchAddDropped ∉ memcpyData offset bs := by
  intro hmem
  obtain ⟨s, _, hs⟩ := List.mem_map.mp hmem
  exact WriteOp.noConfusion hs

/-- A call returns `-1` and only counts the message, or returns `0` and does not count it. -/
lemma lumbreRingbufWriteOps_rc (rb : LumbreRingbuf) (readPos : UInt64) (payload : Mem)
    (payloadLen : UInt32) :
    lumbreRingbufWriteOps rb readPos payload payloadLen = (-1, [.fetchAddDropped]) ∨
      ((lumbreRingbufWriteOps rb readPos payload payloadLen).1 = 0 ∧
        .fetchAddDropped ∉ (lumbreRingbufWriteOps rb readPos payload payloadLen).2) := by
  simp only [lumbreRingbufWriteOps]
  split_ifs
  -- the three refusals, and the accepting branches with and without a payload
  all_goals first
    | exact Or.inl rfl
    | exact Or.inr ⟨rfl, by simp [fetchAddDropped_not_mem_memcpyData]⟩

/-- Accesses that do not count a message leave the counter as it is. -/
lemma LumbreRingbuf.execAll_dropped {rb : LumbreRingbuf} {ops : List WriteOp}
    (h : .fetchAddDropped ∉ ops) : (rb.execAll ops).header.dropped = rb.header.dropped := by
  induction ops generalizing rb with
  | nil => rfl
  | cons op ops ih =>
      rw [List.mem_cons, not_or] at h
      have hop : (rb.exec op).header.dropped = rb.header.dropped := by
        cases op with
        | fetchAddDropped => exact absurd rfl h.1
        | storeData _ => rfl
        | addLocalWritePos _ => rfl
        | storeWritePos => rfl
      exact (ih h.2).trans hop

/-- **A call counts the message exactly when it returns `-1`.** -/
theorem lumbreRingbufWrite_dropped (rb : LumbreRingbuf) (payload : Mem) (payloadLen : UInt32) :
    ((lumbreRingbufWrite rb payload payloadLen).1 = -1 ∧
        (lumbreRingbufWrite rb payload payloadLen).2.header.dropped = rb.header.dropped + 1) ∨
      ((lumbreRingbufWrite rb payload payloadLen).1 = 0 ∧
        (lumbreRingbufWrite rb payload payloadLen).2.header.dropped = rb.header.dropped) := by
  unfold lumbreRingbufWrite
  rcases lumbreRingbufWriteOps_rc rb rb.header.readPos payload payloadLen with h | ⟨hrc, hops⟩
  · rw [h]
    exact Or.inl ⟨rfl, rfl⟩
  · exact Or.inr ⟨hrc, LumbreRingbuf.execAll_dropped hops⟩

/-- One of the three guards refuses a payload of `payloadLen` bytes. -/
def LumbreRingbuf.Refuses (rb : LumbreRingbuf) (payloadLen : UInt32) : Prop :=
  payloadLen > rb.capacity - 4 ∨
    (rb.localWritePos - rb.header.readPos) + (4 + payloadLen).toUInt64 > rb.capacity.toUInt64 ∨
    (rb.localWritePos &&& rb.mask.toUInt64).toUInt32 + (4 + payloadLen) > rb.capacity ∧
      (rb.localWritePos - rb.header.readPos) +
          (rb.capacity - (rb.localWritePos &&& rb.mask.toUInt64).toUInt32).toUInt64 +
          (4 + payloadLen).toUInt64 > rb.capacity.toUInt64

instance (rb : LumbreRingbuf) (payloadLen : UInt32) : Decidable (rb.Refuses payloadLen) :=
  inferInstanceAs (Decidable (_ ∨ _ ∨ _ ∧ _))

/-- **The return value, from the length of the payload alone.** -/
lemma lumbreRingbufWrite_eq_zero_iff (rb : LumbreRingbuf) (payload : Mem) (payloadLen : UInt32) :
    (lumbreRingbufWrite rb payload payloadLen).1 = 0 ↔ ¬ rb.Refuses payloadLen := by
  have hrefused : (-1 : ℤ) ≠ 0 := by decide
  simp only [lumbreRingbufWrite, lumbreRingbufWriteOps]
  rw [LumbreRingbuf.Refuses, not_or, not_or, not_and]
  by_cases hlong : payloadLen > rb.capacity - 4
  · rw [if_pos hlong]
    exact iff_of_false hrefused fun h => h.1 hlong
  rw [if_neg hlong]
  split_ifs with hfull hstraddles hpadded
  · exact iff_of_false hrefused fun h => h.2.1 hfull
  · exact iff_of_false hrefused fun h => h.2.2 hstraddles hpadded
  -- accepted, with and without a payload
  all_goals first
    | exact iff_of_true rfl ⟨hlong, hfull, fun _ => hpadded⟩
    | exact iff_of_true rfl ⟨hlong, hfull, fun h => absurd h hstraddles⟩

end LumbreExt
