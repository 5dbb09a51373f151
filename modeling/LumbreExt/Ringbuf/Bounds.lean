import LumbreExt.Ringbuf.Write

/-!
# Where the producer stores

Runs of `lumbre_ringbuf_write` on one ring, with any value found in `header->read_pos` at each call,
and the offsets such a run touches.

* `CallInBounds C rb c` — every byte the call stores has an index below `C`, and at every offset at
  which the consumer loop has to read a 4-byte word to get past the accepted message, 4 bytes remain.
* A padding marker is four bytes wide whatever room is left, so a wrapping write from one of the
  last three offsets stores past the ring (`marker_stored_past_ring`).
* `allCalls_inBounds_iff` — that is the only way out of bounds: a run stays inside exactly when
  every call finds the write offset at most `C - 4` or is refused.
-/

namespace LumbreExt

open Lib

/-- One call of a run: the value the call finds in `header->read_pos`, and its arguments. -/
structure WriteCall where
  readPos : UInt64
  payload : Mem
  payloadLen : UInt32

/-- The ring as the call finds it. -/
def LumbreRingbuf.withReadPos (rb : LumbreRingbuf) (readPos : UInt64) : LumbreRingbuf :=
  { rb with header.readPos := readPos }

/-- The return value and the accesses of a call. -/
def WriteCall.ops (c : WriteCall) (rb : LumbreRingbuf) : ℤ × List WriteOp :=
  lumbreRingbufWriteOps rb c.readPos c.payload c.payloadLen

/-- The ring after a call. -/
def WriteCall.after (c : WriteCall) (rb : LumbreRingbuf) : LumbreRingbuf :=
  (lumbreRingbufWrite (rb.withReadPos c.readPos) c.payload c.payloadLen).2

/-- `P` holds of every call of the run, at the ring the call finds. -/
def AllCalls (P : LumbreRingbuf → WriteCall → Prop) : LumbreRingbuf → List WriteCall → Prop
  | _, [] => True
  | rb, c :: cs => P rb c ∧ AllCalls P (c.after rb) cs

/-- The indices relative to `rb->data` that a sequence of accesses stores to. -/
def storedIndices (ops : List WriteOp) : List ℕ :=
  ops.filterMap fun
    | .storeData s => some s.1
    | _ => none

/-- The offsets at which the consumer loop, standing where an accepted write began, reads a 4-byte
word before it has the message: the word there and, behind a padding marker, the word at `0`. -/
def headerReads (rb rb' : LumbreRingbuf) : List ℕ :=
  if rb'.data.load rb.offset 4 = le32 lumbreRingbufPaddingMarker then [rb.offset, 0]
  else [rb.offset]

/-- The call stores below `C` only, and leaves the consumer no header that is cut by the end. -/
def CallInBounds (C : ℕ) (rb : LumbreRingbuf) (c : WriteCall) : Prop :=
  (∀ i ∈ storedIndices (c.ops rb).2, i < C) ∧
    ((c.ops rb).1 = 0 → ∀ o ∈ headerReads rb (c.after rb), o + 4 ≤ C)

instance (C : ℕ) (rb : LumbreRingbuf) (c : WriteCall) : Decidable (CallInBounds C rb c) := by
  unfold CallInBounds
  infer_instance

/-! ## The indices of each kind of access -/

lemma storedIndices_append (ops ops' : List WriteOp) :
    storedIndices (ops ++ ops') = storedIndices ops ++ storedIndices ops' :=
  List.filterMap_append

lemma storedIndices_map_storeData (ss : List (ℕ × UInt8)) :
    storedIndices (ss.map .storeData) = ss.map Prod.fst := by
  simp [storedIndices, List.filterMap_map]

/-- A frame is stored to consecutive indices. -/
lemma mem_storedIndices_frameOps {a i : ℕ} {msg : List UInt8} :
    i ∈ storedIndices (frameOps a msg) ↔ a ≤ i ∧ i < a + (4 + msg.length) := by
  have htail : storedIndices [.addLocalWritePos (UInt64.ofNat (4 + msg.length)), .storeWritePos] =
      [] := rfl
  rw [frameOps, storedIndices_append, storedIndices_map_storeData, htail, List.append_nil,
    mem_copyStores_fst, FrameFormat.frame_length, ringFormat_width]

/-- A padding marker is stored to four indices. -/
lemma mem_storedIndices_padOps {a pad i : ℕ} :
    i ∈ storedIndices (padOps a pad) ↔ a ≤ i ∧ i < a + 4 := by
  have htail : storedIndices [.addLocalWritePos (UInt64.ofNat pad)] = [] := rfl
  rw [padOps, storedIndices_append, storedIndices_map_storeData, htail, List.append_nil,
    mem_copyStores_fst, FrameFormat.marker_length, ringFormat_width]

/-! ## One call -/

section call

variable {rb : LumbreRingbuf} {k : ℕ} {c : WriteCall}

lemma Geometry.withReadPos (h : Geometry rb k) (readPos : UInt64) :
    Geometry (rb.withReadPos readPos) k := ⟨h.capacity, h.mask⟩

lemma Geometry.after (h : Geometry rb k) (c : WriteCall) : Geometry (c.after rb) k :=
  (h.withReadPos c.readPos).execAll _

/-- Every header read of an accepted call is at the offset of the call or at `0`. -/
lemma headerReads_le {rb' : LumbreRingbuf} {o : ℕ} (ho : o ∈ headerReads rb rb') :
    o ≤ rb.offset := by
  unfold headerReads at ho
  split_ifs at ho <;> simp at ho <;> omega

lemma offset_mem_headerReads (rb rb' : LumbreRingbuf) : rb.offset ∈ headerReads rb rb' := by
  unfold headerReads
  split_ifs <;> simp

lemma not_refused_of_wrapped {C o u n : ℕ} (h : Wrapped C o u n) : ¬ Refused C o u n := by
  obtain ⟨hfit, hspace, _, hpadded⟩ := h
  rintro (hlen | hused | ⟨_, hfull⟩) <;> omega

/-- **One call stays in bounds exactly when it is refused or has 4 bytes left before the end.** -/
lemma callInBounds_iff (hg : Geometry rb k) (hk : 3 ≤ k) :
    CallInBounds (2 ^ k) rb c ↔
      rb.offset + 4 ≤ 2 ^ k ∨
        Refused (2 ^ k) rb.offset (rb.used c.readPos) c.payloadLen.toNat := by
  have hoffLt := hg.offset_lt
  have hmsg : (c.payload.load 0 c.payloadLen.toNat).length = c.payloadLen.toNat := by simp
  unfold CallInBounds WriteCall.ops
  rcases lumbreRingbufWriteOps_cases hg (by omega) c.readPos c.payload c.payloadLen with
    ⟨hrefused, hops⟩ | ⟨⟨_, _, hend⟩, hops⟩ | ⟨hwrapped, hops⟩
  · -- refused: nothing is stored
    have hnone : storedIndices [WriteOp.fetchAddDropped] = [] := rfl
    rw [hops]
    simp [hrefused, hnone]
  · -- one frame
    rw [hops]
    refine ⟨fun _ => Or.inl (by omega), fun _ => ⟨?_, ?_⟩⟩
    · intro i hi
      have hbounds := mem_storedIndices_frameOps.mp hi
      omega
    · intro _ o ho
      have hle := headerReads_le ho
      omega
  · -- a padding marker at the write offset, which is what may reach over the end
    have hnot := not_refused_of_wrapped hwrapped
    obtain ⟨hfit, _, _, _⟩ := hwrapped
    rw [hops]
    constructor
    · rintro ⟨-, hreads⟩
      exact Or.inl (hreads rfl _ (offset_mem_headerReads rb _))
    · intro hcond
      have hroom : rb.offset + 4 ≤ 2 ^ k := hcond.resolve_right hnot
      refine ⟨?_, ?_⟩
      · intro i hi
        rw [storedIndices_append, List.mem_append, mem_storedIndices_padOps,
          mem_storedIndices_frameOps] at hi
        omega
      · intro _ o ho
        have hle := headerReads_le ho
        omega

end call

/-! ## Runs -/

lemma AllCalls.congr {P Q : LumbreRingbuf → WriteCall → Prop} {k : ℕ}
    (hPQ : ∀ rb c, Geometry rb k → (P rb c ↔ Q rb c)) {rb : LumbreRingbuf} (hg : Geometry rb k)
    (cs : List WriteCall) : AllCalls P rb cs ↔ AllCalls Q rb cs := by
  induction cs generalizing rb with
  | nil => exact Iff.rfl
  | cons c cs ih => exact and_congr (hPQ rb c hg) (ih (hg.after c))

/-- **A run stays inside the ring exactly when no message is accepted from one of the last three
offsets.** From an initialised ring of `2 ^ k ≥ 8` bytes, for any payloads and any values found in
`header->read_pos`. -/
theorem allCalls_inBounds_iff {capacity : UInt32} {rb : LumbreRingbuf} {k : ℕ}
    (hinit : Initialised capacity rb) (hcap : capacity.toNat = 2 ^ k) (hk : 3 ≤ k)
    (cs : List WriteCall) :
    AllCalls (CallInBounds (2 ^ k)) rb cs ↔
      AllCalls (fun rb c => rb.offset + 4 ≤ 2 ^ k ∨
        Refused (2 ^ k) rb.offset (rb.used c.readPos) c.payloadLen.toNat) rb cs :=
  AllCalls.congr (fun _ _ hg => callInBounds_iff hg hk) (hinit.geometry hcap) cs

/-- A ring that has just been initialised. -/
def freshRing (capacity : UInt32) : LumbreRingbuf :=
  openRing 3 (ringPath (ascii "/dev/shm") 1 0) 1 0 (lumbreNextPowerOf2 capacity)

lemma initialised_freshRing (capacity : UInt32) : Initialised capacity (freshRing capacity) :=
  ⟨⟨some 3, true, true⟩, ⟨0, 0, []⟩, _, ascii "/dev/shm", 1, 0, rfl⟩

/-- A ring of 8 bytes. -/
def ringOfEight : LumbreRingbuf :=
  openRing 3 (ringPath (ascii "/dev/shm") 1 0) 1 0 8

lemma initialised_ringOfEight : Initialised 8 ringOfEight :=
  ⟨⟨some 3, true, true⟩, ⟨0, 0, []⟩, _, ascii "/dev/shm", 1, 0, rfl⟩

/-- A one-byte and, once the daemon has read it, an empty message: the first fills a ring of 8
bytes up to offset `5`, so the padding marker in front of the second is stored to `5, 6, 7, 8`. -/
theorem marker_stored_past_ring :
    Initialised 8 ringOfEight ∧
      ¬ AllCalls (CallInBounds 8) ringOfEight
        [⟨0, fun _ => 0, 1⟩, ⟨5, fun _ => 0, 0⟩] :=
  ⟨initialised_ringOfEight, fun h => absurd h.2.1 (by decide)⟩

/-- The criterion on a run that stays inside: a message of four bytes after another. -/
theorem allCalls_inBounds_iff_four_bytes :
    AllCalls (CallInBounds (2 ^ 3)) ringOfEight [⟨0, fun _ => 7, 4⟩, ⟨8, fun _ => 9, 4⟩] :=
  (allCalls_inBounds_iff initialised_ringOfEight (k := 3) rfl le_rfl _).mpr
    ⟨Or.inl (by decide), Or.inl (by decide), trivial⟩

end LumbreExt
