import LumbreExt.Lib.Machine
import LumbreExt.Ringbuf.Bounds
import LumbreExt.Ringbuf.Invariant

/-!
# The ring between calls

The machine of a ring whose calls are not interrupted: a `lumbre_ringbuf_write`, or a new value in
`header->read_pos`.

* `ringMachine` — its states are rings, its events `RingEvent`s.
* `Consistent` — what holds between calls: the write position is the published one, and no more than
  the capacity is unread. Every event preserves it (`consistent_of_reachable`).
* `claimed` — the bytes a message takes up at an offset, its padding included.
* `lumbreRingbufWrite_eq` — one call on a consistent ring: it is accepted exactly when what it claims
  fits, and then stores to claimed bytes only.
* `lumbreRingbufWrite_frame` — all or nothing, and only free space is touched.
* `guaranteed_acceptance` — the largest message that an empty ring takes whatever its write position.
-/

namespace LumbreExt

open Lib

/-! ## The machine -/

/-- What happens to a ring: a message is written, or the daemon moves its position. -/
inductive RingEvent
  | write (payload : Mem) (payloadLen : UInt32)
  | publish (readPos : UInt64)

/-- The daemon moves forward, and not past what has been published to it. -/
def ringStep (rb : LumbreRingbuf) : RingEvent → Option LumbreRingbuf
  | .write payload payloadLen => some (lumbreRingbufWrite rb payload payloadLen).2
  | .publish readPos =>
      if readPos - rb.header.readPos ≤ rb.header.writePos - rb.header.readPos then
        some (rb.withReadPos readPos)
      else none

/-- The machine of the rings that are initialised with this capacity argument. -/
def ringMachine (capacity : UInt32) : Machine LumbreRingbuf RingEvent where
  Start := Initialised capacity
  step := ringStep

/-- The bytes the daemon has not read. -/
def LumbreRingbuf.unread (rb : LumbreRingbuf) : ℕ := rb.used rb.header.readPos

/-- What holds of a ring of `2 ^ k` bytes between calls. -/
structure Consistent (k : ℕ) (rb : LumbreRingbuf) : Prop where
  geometry : Geometry rb k
  writePos_eq : rb.header.writePos = rb.localWritePos
  unread_le : rb.unread ≤ 2 ^ k

/-! ## One call -/

/-- The bytes a message of `n` bytes takes up at offset `o` of a ring of `C` bytes: a frame, and in
front of it the rest of the ring when the frame would reach over the end. -/
def claimed (C o n : ℕ) : ℕ :=
  if o + (4 + n) ≤ C then 4 + n else C - o + (4 + n)

/-- The byte stores of an accepted message. -/
def messageStores (C o : ℕ) (msg : List UInt8) : List (ℕ × UInt8) :=
  if o + (4 + msg.length) ≤ C then copyStores o (ringFormat.frame msg)
  else copyStores o ringFormat.marker ++ copyStores 0 (ringFormat.frame msg)

/-- The ring behind an accepted message. -/
def LumbreRingbuf.afterMessage (rb : LumbreRingbuf) (C : ℕ) (msg : List UInt8) : LumbreRingbuf :=
  { rb with
    data := rb.data.storeAll (messageStores C rb.offset msg)
    localWritePos := rb.localWritePos + UInt64.ofNat (claimed C rb.offset msg.length)
    header.writePos := rb.localWritePos + UInt64.ofNat (claimed C rb.offset msg.length) }

/-- The ring behind a refused message. -/
def LumbreRingbuf.afterDrop (rb : LumbreRingbuf) : LumbreRingbuf :=
  { rb with header.dropped := rb.header.dropped + 1 }

section call

variable {k : ℕ} {rb : LumbreRingbuf}

/-- The accesses of a padding marker and the frame behind it. -/
lemma LumbreRingbuf.execAll_padded (rb : LumbreRingbuf) (a pad : ℕ) (msg : List UInt8) :
    rb.execAll (padOps a pad ++ frameOps 0 msg) =
      { rb with
        data := (rb.data.storeAll (copyStores a ringFormat.marker)).storeAll
          (copyStores 0 (ringFormat.frame msg))
        localWritePos := rb.localWritePos + UInt64.ofNat (pad + (4 + msg.length))
        header.writePos := rb.localWritePos + UInt64.ofNat (pad + (4 + msg.length)) } := by
  have hpad : rb.execAll (padOps a pad) =
      { rb with
        data := rb.data.storeAll (copyStores a ringFormat.marker)
        localWritePos := rb.localWritePos + UInt64.ofNat pad } := by
    rw [padOps, execAll_append, execAll_map_storeData]
    rfl
  rw [execAll_append, hpad, execAll_frameOps]
  simp only [UInt64.ofNat_add, UInt64.add_assoc]

/-- **One call on a consistent ring.** The message is accepted exactly when what it claims fits next
to the unread bytes; then its bytes are stored and its claim is published. Otherwise it is
counted. -/
theorem lumbreRingbufWrite_eq (h : Consistent k rb) (hk : 2 ≤ k) (payload : Mem)
    (payloadLen : UInt32) :
    lumbreRingbufWrite rb payload payloadLen =
      if rb.unread + claimed (2 ^ k) rb.offset payloadLen.toNat ≤ 2 ^ k then
        (0, rb.afterMessage (2 ^ k) (payload.load 0 payloadLen.toNat))
      else (-1, rb.afterDrop) := by
  have hcap := h.geometry.capacity_le
  have hoff := h.geometry.offset_lt
  have hunread := h.unread_le
  have hlen : payloadLen.toNat < 2 ^ 32 := payloadLen.toNat_lt
  have hmsg : (payload.load 0 payloadLen.toNat).length = payloadLen.toNat :=
    Mem.load_length payload 0 payloadLen.toNat
  unfold lumbreRingbufWrite LumbreRingbuf.unread at *
  rcases lumbreRingbufWriteOps_cases h.geometry hk rb.header.readPos payload payloadLen with
    ⟨hrefused, hops⟩ | ⟨⟨_, hspace, hend⟩, hops⟩ | ⟨⟨_, _, hend, hspace⟩, hops⟩
  · -- no guard wraps, since neither summand is near the end of its type
    have hfull : ¬ rb.used rb.header.readPos + claimed (2 ^ k) rb.offset payloadLen.toNat ≤
        2 ^ k := by
      unfold claimed
      rcases hrefused with hlong | hfull | ⟨hend, hfull⟩
      · split_ifs <;> omega
      · split_ifs <;> omega
      · split_ifs <;> omega
    rw [hops, if_neg hfull]
    rfl
  · have hclaim : claimed (2 ^ k) rb.offset payloadLen.toNat = 4 + payloadLen.toNat := if_pos hend
    have hfits : rb.used rb.header.readPos + claimed (2 ^ k) rb.offset payloadLen.toNat ≤
        2 ^ k := by
      rw [hclaim]
      omega
    rw [hops, if_pos hfits]
    dsimp only
    rw [LumbreRingbuf.execAll_frameOps, LumbreRingbuf.afterMessage, messageStores, hmsg, if_pos hend,
      hclaim]
  · have hnot : ¬ rb.offset + (4 + payloadLen.toNat) ≤ 2 ^ k := by omega
    have hclaim : claimed (2 ^ k) rb.offset payloadLen.toNat =
        2 ^ k - rb.offset + (4 + payloadLen.toNat) := if_neg hnot
    have hfits : rb.used rb.header.readPos + claimed (2 ^ k) rb.offset payloadLen.toNat ≤
        2 ^ k := by
      rw [hclaim]
      omega
    rw [hops, if_pos hfits]
    dsimp only
    rw [LumbreRingbuf.execAll_padded, LumbreRingbuf.afterMessage, messageStores, hmsg, if_neg hnot,
      hclaim, Mem.storeAll_append]

/-! ## The invariant -/

/-- What an accepted message claims is unread behind it. -/
lemma Consistent.unread_afterMessage (h : Consistent k rb) {msg : List UInt8}
    (hfits : rb.unread + claimed (2 ^ k) rb.offset msg.length ≤ 2 ^ k) :
    (rb.afterMessage (2 ^ k) msg).unread =
      rb.unread + claimed (2 ^ k) rb.offset msg.length := by
  have hcap := h.geometry.capacity_le
  have hsplit : (rb.afterMessage (2 ^ k) msg).localWritePos - rb.header.readPos =
      (rb.localWritePos - rb.header.readPos) +
        UInt64.ofNat (claimed (2 ^ k) rb.offset msg.length) := by
    rw [LumbreRingbuf.afterMessage]
    grind
  change ((rb.afterMessage (2 ^ k) msg).localWritePos - rb.header.readPos).toNat = _
  rw [hsplit, UInt64.toNat_add, toNat_counter]
  change (rb.unread + _) % 2 ^ 64 = _
  omega

/-- A write preserves the invariant. -/
lemma Consistent.write (h : Consistent k rb) (hk : 2 ≤ k) (payload : Mem) (payloadLen : UInt32) :
    Consistent k (lumbreRingbufWrite rb payload payloadLen).2 := by
  rw [lumbreRingbufWrite_eq h hk]
  have hmsg : (payload.load 0 payloadLen.toNat).length = payloadLen.toNat :=
    Mem.load_length payload 0 payloadLen.toNat
  split_ifs with hfits
  · rw [← hmsg] at hfits
    refine ⟨⟨h.geometry.capacity, h.geometry.mask⟩, rfl, ?_⟩
    rw [h.unread_afterMessage hfits]
    exact hfits
  · exact ⟨⟨h.geometry.capacity, h.geometry.mask⟩, h.writePos_eq, h.unread_le⟩

/-- So does the daemon: it only shortens the unread region. -/
lemma Consistent.publish (h : Consistent k rb) {readPos : UInt64}
    (hforward : readPos - rb.header.readPos ≤ rb.header.writePos - rb.header.readPos) :
    Consistent k (rb.withReadPos readPos) := by
  rw [h.writePos_eq] at hforward
  refine ⟨⟨h.geometry.capacity, h.geometry.mask⟩, h.writePos_eq, ?_⟩
  have hsplit : rb.localWritePos - readPos =
      (rb.localWritePos - rb.header.readPos) - (readPos - rb.header.readPos) := by
    grind
  have hunread := h.unread_le
  change (rb.localWritePos - readPos).toNat ≤ 2 ^ k
  rw [hsplit, UInt64.toNat_sub_of_le _ _ hforward]
  exact le_trans (Nat.sub_le _ _) hunread

lemma Consistent.openRing {fd : ℤ} {path : List UInt8} {pid : UInt32} {workerId : UInt64}
    {capacity : UInt32} (hcap : capacity.toNat = 2 ^ k) :
    Consistent k (LumbreExt.openRing fd path pid workerId capacity) := by
  have hempty : (LumbreExt.openRing fd path pid workerId capacity).unread = 0 :=
    show (0 - 0 : UInt64).toNat = 0 by decide
  refine ⟨Geometry.openRing hcap, rfl, ?_⟩
  rw [hempty]
  exact Nat.zero_le _

/-- **Every reachable ring is consistent.** -/
theorem consistent_of_reachable {capacity : UInt32} (hcap : capacity.toNat = 2 ^ k) (hk : 2 ≤ k)
    (h : (ringMachine capacity).Reachable rb) : Consistent k rb := by
  refine h.invariant (I := Consistent k) ?_ ?_
  · intro rb hinit
    obtain ⟨fd, path, pid, workerId, rfl⟩ := Initialised.eq_openRing_of_toNat hinit hcap
    exact Consistent.openRing hcap
  · intro rb e rb' hrb hstep
    cases e with
    | write payload payloadLen =>
        obtain rfl := Option.some.inj hstep
        exact hrb.write hk payload payloadLen
    | publish readPos =>
        change (if _ then some _ else none) = _ at hstep
        split_ifs at hstep with hforward
        obtain rfl := Option.some.inj hstep
        exact hrb.publish hforward

/-! ## The frame -/

/-- The offsets of the unread bytes. -/
def LumbreRingbuf.UnreadAt (rb : LumbreRingbuf) (i : ℕ) : Prop :=
  ∃ j < rb.unread, ((rb.header.readPos + UInt64.ofNat j) &&& rb.mask.toUInt64).toNat = i

/-- The unread offsets are those of the positions from the read position on. -/
lemma unreadAt_iff (hg : Geometry rb k) (i : ℕ) :
    rb.UnreadAt i ↔ ∃ j < rb.unread, (rb.header.readPos.toNat + j) % 2 ^ k = i := by
  have hk := hg.k_le
  have hmask : rb.mask.toUInt64.toNat = 2 ^ k - 1 := by
    rw [UInt32.toNat_toUInt64, hg.mask]
  have hoffset : ∀ j, ((rb.header.readPos + UInt64.ofNat j) &&& rb.mask.toUInt64).toNat =
      (rb.header.readPos.toNat + j) % 2 ^ k := by
    intro j
    rw [toNat_and_mask hmask, toNat_add_counter_mod (by omega)]
  constructor
  · rintro ⟨j, hj, hi⟩
    exact ⟨j, hj, (hoffset j).symm.trans hi⟩
  · rintro ⟨j, hj, hi⟩
    exact ⟨j, hj, (hoffset j).trans hi⟩

/-- The write offset is the offset of the position behind the unread bytes. -/
lemma offset_eq (hg : Geometry rb k) :
    rb.offset = (rb.header.readPos.toNat + rb.unread) % 2 ^ k := by
  have hk := hg.k_le
  have hpos : rb.localWritePos = rb.header.readPos + UInt64.ofNat rb.unread := by
    rw [LumbreRingbuf.unread, LumbreRingbuf.used, UInt64.ofNat_toNat]
    grind
  rw [LumbreRingbuf.offset, hg.capacity, ← toNat_add_counter_mod (by omega), ← hpos]

/-- What an accepted message stores is outside the unread bytes, or behind the ring. -/
lemma safeStore_of_mem_messageStores (h : Consistent k rb) {msg : List UInt8}
    (hfits : rb.unread + claimed (2 ^ k) rb.offset msg.length ≤ 2 ^ k) {st : ℕ × UInt8}
    (hst : st ∈ messageStores (2 ^ k) rb.offset msg) :
    Spsc.SafeStore (2 ^ k) rb.header.readPos.toNat (rb.header.readPos.toNat + rb.unread) st := by
  have hpos := Nat.two_pow_pos k
  have hlt := h.geometry.offset_lt
  unfold messageStores at hst
  unfold claimed at hfits
  rw [offset_eq h.geometry] at hst hfits hlt
  by_cases hend : (rb.header.readPos.toNat + rb.unread) % 2 ^ k + (4 + msg.length) ≤ 2 ^ k
  · rw [if_pos hend] at hst hfits
    exact Spsc.safeStore_of_mem_frame (by omega) (by omega) hst
  · rw [if_neg hend] at hst hfits
    rcases List.mem_append.mp hst with hmarker | hframe
    · exact Spsc.safeStore_of_mem_marker hpos (by omega) hmarker
    · exact Spsc.safeStore_of_mem_wrapped_frame hpos (by omega) (by omega) hframe

/-- No unread byte is stored to. -/
lemma not_unreadAt_of_mem_messageStores (h : Consistent k rb) {msg : List UInt8}
    (hfits : rb.unread + claimed (2 ^ k) rb.offset msg.length ≤ 2 ^ k) {st : ℕ × UInt8}
    (hst : st ∈ messageStores (2 ^ k) rb.offset msg) : ¬ rb.UnreadAt st.1 := by
  rw [unreadAt_iff h.geometry]
  rintro ⟨j, hj, hi⟩
  rcases safeStore_of_mem_messageStores h hfits hst with ⟨_, hfree⟩ | ⟨hbehind, _⟩
  · exact hfree _ (Nat.le_add_right _ j) (Nat.add_lt_add_left hj _) hi
  · have hlt := Nat.mod_lt (rb.header.readPos.toNat + j) (Nat.two_pow_pos k)
    omega

/-- **A write is all or nothing and touches only free space.** On every ring between calls, a refused
message leaves the data and the three positions as they are and is counted once; an accepted one is
not counted, is published, leaves no more than the capacity unread, and changes no byte of the ring
that is unread. -/
theorem lumbreRingbufWrite_frame (h : Consistent k rb) (hk : 2 ≤ k) (payload : Mem)
    (payloadLen : UInt32) {rc : ℤ} {rb' : LumbreRingbuf}
    (hwrite : lumbreRingbufWrite rb payload payloadLen = (rc, rb')) :
    (rc = -1 ∧ rb'.data = rb.data ∧ rb'.localWritePos = rb.localWritePos ∧
        rb'.header.writePos = rb.header.writePos ∧ rb'.header.readPos = rb.header.readPos ∧
        rb'.header.dropped = rb.header.dropped + 1) ∨
      (rc = 0 ∧ rb'.header.dropped = rb.header.dropped ∧
        rb'.header.writePos = rb'.localWritePos ∧
        (rb'.localWritePos - rb'.header.readPos).toNat ≤ 2 ^ k ∧
        ∀ i < 2 ^ k, rb'.data i ≠ rb.data i → ¬ rb.UnreadAt i) := by
  have hmsg : (payload.load 0 payloadLen.toNat).length = payloadLen.toNat :=
    Mem.load_length payload 0 payloadLen.toNat
  have hafter := h.write hk payload payloadLen
  rw [hwrite] at hafter
  rw [lumbreRingbufWrite_eq h hk] at hwrite
  by_cases hfits : rb.unread + claimed (2 ^ k) rb.offset payloadLen.toNat ≤ 2 ^ k
  · rw [if_pos hfits] at hwrite
    obtain ⟨rfl, rfl⟩ := Prod.mk.inj hwrite
    rw [← hmsg] at hfits
    refine Or.inr ⟨rfl, rfl, rfl, hafter.unread_le, ?_⟩
    intro i _ hchanged hunread
    apply hchanged
    apply Mem.storeAll_apply_of_not_mem
    rintro st hst rfl
    exact not_unreadAt_of_mem_messageStores h hfits hst hunread
  · rw [if_neg hfits] at hwrite
    obtain ⟨rfl, rfl⟩ := Prod.mk.inj hwrite
    exact Or.inl ⟨rfl, rfl, rfl, rfl, rfl, rfl⟩

end call

/-- The ring of 8 bytes behind one empty message. -/
def ringWithMessage : LumbreRingbuf := (lumbreRingbufWrite ringOfEight (fun _ => 0) 0).2

lemma consistent_ringWithMessage : Consistent 3 ringWithMessage :=
  (Consistent.openRing rfl).write (by decide) _ _

/-- A second empty message fills the ring of 8 bytes, and leaves the first one alone. -/
theorem lumbreRingbufWrite_frame_second_message :
    (lumbreRingbufWrite ringWithMessage (fun _ => 0) 0).1 = 0 ∧
      ∀ i < 2 ^ 3, (lumbreRingbufWrite ringWithMessage (fun _ => 0) 0).2.data i ≠
        ringWithMessage.data i → ¬ ringWithMessage.UnreadAt i := by
  rcases lumbreRingbufWrite_frame consistent_ringWithMessage (by decide) (fun _ => 0) 0 rfl with
    ⟨hrc, _⟩ | ⟨hrc, _, _, _, hframe⟩
  · exact absurd hrc (by decide)
  · exact ⟨hrc, hframe⟩

/-! ## The threshold of guaranteed acceptance -/

section threshold

variable {k : ℕ} {rb : LumbreRingbuf}

/-- The daemon has read everything. -/
def LumbreRingbuf.CaughtUp (rb : LumbreRingbuf) : Prop := rb.header.readPos = rb.localWritePos

lemma LumbreRingbuf.CaughtUp.unread_eq (h : rb.CaughtUp) : rb.unread = 0 := by
  rw [unread, used, h, UInt64.sub_self]
  rfl

/-- An empty ring takes a message exactly when the message with its padding is not longer than the
ring. -/
lemma Consistent.accepts_iff (h : Consistent k rb) (hk : 2 ≤ k) (hcaught : rb.CaughtUp)
    (payload : Mem) (payloadLen : UInt32) :
    (lumbreRingbufWrite rb payload payloadLen).1 = 0 ↔
      claimed (2 ^ k) rb.offset payloadLen.toNat ≤ 2 ^ k := by
  rw [lumbreRingbufWrite_eq h hk, hcaught.unread_eq, Nat.zero_add]
  split_ifs with hfits
  · exact iff_of_true rfl hfits
  · exact iff_of_false (show (-1 : ℤ) ≠ 0 by decide) hfits

/-- It refuses a longer one. -/
lemma Consistent.refuses (h : Consistent k rb) (hk : 2 ≤ k) (hcaught : rb.CaughtUp)
    {payloadLen : UInt32} (hlong : 2 ^ k < claimed (2 ^ k) rb.offset payloadLen.toNat)
    (payload : Mem) : lumbreRingbufWrite rb payload payloadLen = (-1, rb.afterDrop) := by
  have hfull : ¬ rb.unread + claimed (2 ^ k) rb.offset payloadLen.toNat ≤ 2 ^ k := by
    rw [hcaught.unread_eq]
    omega
  rw [lumbreRingbufWrite_eq h hk, if_neg hfull]

/-- **A message that does not fit into the empty ring is refused on every retry**: a refusal leaves
everything that decides about the next call as it is. -/
lemma Consistent.refuses_again (h : Consistent k rb) (hk : 2 ≤ k) (hcaught : rb.CaughtUp)
    {payloadLen : UInt32} (hlong : 2 ^ k < claimed (2 ^ k) rb.offset payloadLen.toNat)
    (capacity : UInt32) (payloads : List Mem) :
    ∃ rb', (ringMachine capacity).run rb
        (payloads.map fun payload => .write payload payloadLen) = some rb' ∧
      rb'.CaughtUp ∧ ∀ payload, (lumbreRingbufWrite rb' payload payloadLen).1 = -1 := by
  induction payloads generalizing rb with
  | nil => exact ⟨rb, rfl, hcaught, fun payload => by rw [h.refuses hk hcaught hlong payload]⟩
  | cons payload payloads ih =>
      have hwrite := h.refuses hk hcaught hlong payload
      have hnext : Consistent k rb.afterDrop := by
        have hafter := h.write hk payload payloadLen
        rwa [hwrite] at hafter
      have hstep : (ringMachine capacity).step rb (.write payload payloadLen) =
          some rb.afterDrop := by
        change some (lumbreRingbufWrite rb payload payloadLen).2 = _
        rw [hwrite]
      -- the refusal moves neither position
      obtain ⟨rb', hrun, hrest⟩ := ih hnext hcaught hlong
      refine ⟨rb', ?_, hrest⟩
      rw [List.map_cons, Machine.run_cons, hstep, Option.bind_some]
      exact hrun

/-- Up to half of the ring, a message fits at every offset. -/
lemma claimed_le_of_le_half {C o n : ℕ} (ho : o < C) (hn : 2 * (4 + n) ≤ C) : claimed C o n ≤ C := by
  unfold claimed
  split_ifs <;> omega

/-- A longer one does not fit one byte short of its own length. -/
lemma lt_claimed_of_half_lt {m n : ℕ} (hn : m < 4 + n) (hle : 4 + n ≤ 2 * m) :
    2 * m < claimed (2 * m) (3 + n) n := by
  unfold claimed
  split_ifs <;> omega

/-- The daemon may always read everything. -/
lemma Consistent.catchUp (h : Consistent k rb) (capacity : UInt32) :
    (ringMachine capacity).step rb (.publish rb.localWritePos) =
        some (rb.withReadPos rb.localWritePos) ∧
      Consistent k (rb.withReadPos rb.localWritePos) := by
  have hforward : rb.localWritePos - rb.header.readPos ≤
      rb.header.writePos - rb.header.readPos := by
    rw [h.writePos_eq]
    exact UInt64.le_refl _
  exact ⟨if_pos hforward, h.publish hforward⟩

/-- The fresh ring after a message of `l` bytes that the daemon has read: it is empty and stands
behind the frame. -/
lemma freshRing_after_message {capacity : UInt32} (hcap : capacity.toNat = 2 ^ k) (hk : 2 ≤ k)
    {payloadLen : UInt32} (hfit : 4 + payloadLen.toNat < 2 ^ k) (payload : Mem) :
    ∃ rb, (lumbreRingbufWrite (freshRing capacity) payload payloadLen).1 = 0 ∧
      (ringMachine capacity).run (freshRing capacity) [.write payload payloadLen,
        .publish (lumbreRingbufWrite (freshRing capacity) payload payloadLen).2.localWritePos] =
          some rb ∧
      Consistent k rb ∧ rb.CaughtUp ∧ rb.offset = 4 + payloadLen.toNat := by
  have hfresh : Consistent k (freshRing capacity) := by
    rw [freshRing, lumbreNextPowerOf2_of_toNat hcap]
    exact Consistent.openRing hcap
  have hcapLe := hfresh.geometry.capacity_le
  have hunread : (freshRing capacity).unread = 0 := LumbreRingbuf.CaughtUp.unread_eq rfl
  have hoffset : (freshRing capacity).offset = 0 := Nat.zero_mod _
  have hclaim : claimed (2 ^ k) (freshRing capacity).offset payloadLen.toNat =
      4 + payloadLen.toNat := by
    rw [hoffset]
    exact if_pos (by omega)
  have hwrite : lumbreRingbufWrite (freshRing capacity) payload payloadLen =
      (0, (freshRing capacity).afterMessage (2 ^ k) (payload.load 0 payloadLen.toNat)) := by
    rw [lumbreRingbufWrite_eq hfresh hk, if_pos]
    rw [hunread, hclaim]
    omega
  have hafter := hfresh.write hk payload payloadLen
  rw [hwrite] at hafter ⊢
  generalize hrb' : (freshRing capacity).afterMessage (2 ^ k) (payload.load 0 payloadLen.toNat) =
    rb' at hafter hwrite ⊢
  have hpos : rb'.localWritePos = UInt64.ofNat (4 + payloadLen.toNat) := by
    have hlength : (payload.load 0 payloadLen.toNat).length = payloadLen.toNat :=
      Mem.load_length payload 0 payloadLen.toNat
    rw [← hrb', LumbreRingbuf.afterMessage, hlength, hclaim]
    exact UInt64.zero_add _
  obtain ⟨hcatchUp, hcaught⟩ := hafter.catchUp capacity
  refine ⟨rb'.withReadPos rb'.localWritePos, rfl, ?_, hcaught, rfl, ?_⟩
  · have hfirst : (ringMachine capacity).step (freshRing capacity) (.write payload payloadLen) =
        some rb' := by
      change some (lumbreRingbufWrite (freshRing capacity) payload payloadLen).2 = _
      rw [hwrite]
    rw [Machine.run_cons, hfirst, Option.bind_some, Machine.run_cons, hcatchUp, Option.bind_some,
      Machine.run_nil]
  · change rb'.localWritePos.toNat % rb'.capacity.toNat = _
    rw [hafter.geometry.capacity, hpos, toNat_counter, Nat.mod_eq_of_lt (by omega : _ < 2 ^ 64),
      Nat.mod_eq_of_lt hfit]

/-- **The threshold of guaranteed acceptance is half of the ring.** A message that with its header
takes up at most half of the ring is accepted by every reachable ring that has been read. For any
longer one there is a ring, one smaller message and its consumption from a fresh one, that is empty
and refuses it however often it is tried. -/
theorem guaranteed_acceptance {capacity : UInt32} (hcap : capacity.toNat = 2 ^ k) (hk : 3 ≤ k)
    {payloadLen : UInt32} (hlen : payloadLen.toNat ≤ 2 ^ k - 4) :
    (2 * (4 + payloadLen.toNat) ≤ 2 ^ k →
      ∀ rb, (ringMachine capacity).Reachable rb → rb.CaughtUp →
        ∀ payload, (lumbreRingbufWrite rb payload payloadLen).1 = 0) ∧
    (2 ^ k < 2 * (4 + payloadLen.toNat) →
      ∃ (rb₀ rb : LumbreRingbuf) (smaller : Mem) (smallerLen : UInt32), Initialised capacity rb₀ ∧
        smallerLen < payloadLen ∧ (lumbreRingbufWrite rb₀ smaller smallerLen).1 = 0 ∧
        (ringMachine capacity).run rb₀ [.write smaller smallerLen,
          .publish (lumbreRingbufWrite rb₀ smaller smallerLen).2.localWritePos] = some rb ∧
        rb.CaughtUp ∧
        ∀ payloads : List Mem, ∃ rb', (ringMachine capacity).run rb
            (payloads.map fun payload => .write payload payloadLen) = some rb' ∧
          rb'.CaughtUp ∧ ∀ payload, (lumbreRingbufWrite rb' payload payloadLen).1 = -1) := by
  constructor
  · intro hhalf rb hreachable hcaught payload
    have hrb := consistent_of_reachable hcap (by omega) hreachable
    rw [hrb.accepts_iff (by omega) hcaught]
    exact claimed_le_of_le_half hrb.geometry.offset_lt hhalf
  · intro hlong
    have height : 2 ^ 3 ≤ 2 ^ k := Nat.pow_le_pow_right (by decide) hk
    have hpos : 0 < payloadLen.toNat := by omega
    have hsmaller : (payloadLen - 1).toNat = payloadLen.toNat - 1 := by
      rw [UInt32.toNat_sub_of_le]
      · rfl
      · rw [UInt32.le_iff_toNat_le]
        exact hpos
    have hfit : 4 + (payloadLen - 1).toNat < 2 ^ k := by omega
    obtain ⟨rb, haccepted, hrun, hrb, hcaught, hoffset⟩ :=
      freshRing_after_message hcap (by omega) hfit (fun _ => 0)
    refine ⟨freshRing capacity, rb, fun _ => 0, payloadLen - 1, initialised_freshRing capacity, ?_,
      haccepted, hrun, hcaught, ?_⟩
    · rw [UInt32.lt_iff_toNat_lt, hsmaller]
      omega
    · intro payloads
      refine hrb.refuses_again (by omega) hcaught ?_ capacity payloads
      obtain ⟨m, hm⟩ : ∃ m, 2 ^ k = 2 * m := ⟨2 ^ (k - 1), by rw [← Nat.pow_succ']; congr 1; omega⟩
      have hstands : rb.offset = 3 + payloadLen.toNat := by
        rw [hoffset, hsmaller]
        omega
      rw [hstands, hm]
      exact lt_claimed_of_half_lt (by omega) (by omega)

/-- In a ring of 16 bytes, messages of up to 4 bytes are always taken, and one of 5 bytes is not. -/
theorem guaranteed_acceptance_sixteen :
    (∀ rb, (ringMachine 16).Reachable rb → rb.CaughtUp →
      ∀ payload, (lumbreRingbufWrite rb payload 4).1 = 0) ∧
    ∃ rb, (ringMachine 16).Reachable rb ∧ rb.CaughtUp ∧
      ∀ payload, (lumbreRingbufWrite rb payload 5).1 = -1 := by
  have hcap : (16 : UInt32).toNat = 2 ^ 4 := rfl
  have hfour := guaranteed_acceptance hcap (by decide)
    (show (4 : UInt32).toNat ≤ 2 ^ 4 - 4 by decide)
  have hfive := guaranteed_acceptance hcap (by decide)
    (show (5 : UInt32).toNat ≤ 2 ^ 4 - 4 by decide)
  obtain ⟨rb₀, rb, _, _, hinit, _, _, hrun, hcaught, hrefused⟩ := hfive.2 (by decide)
  obtain ⟨rb', hnone, hrest⟩ := hrefused []
  obtain rfl := Option.some.inj hnone
  exact ⟨hfour.1 (by decide), rb, (Machine.Reachable.start hinit).run hrun, hcaught, hrest.2⟩

end threshold

end LumbreExt
