import LumbreExt.Ringbuf.Spsc

/-!
# The invariant of the concurrent ring

What holds in every state of the producer and the consumer, and that every step preserves it.

* `Spsc.Inv` — the accepted payloads are the delivered ones followed by some `pending` ones, and the
  positions from the consumer's to the announced write position hold exactly `pending`
  (`Frames`, from the library).
* `ConsumerAt` adds what the consumer has already read of the first pending message; `ProducerAt`
  says that the accesses still to come build one more frame behind the announced position, without
  storing into the unread region.
* One lemma per step: `Inv.beginWrite`, `Inv.perform`, `Inv.readHeader`, `Inv.readRestart`,
  `Inv.deliver`, `Inv.publish`.
-/

namespace LumbreExt

open Lib

/-! ## The accesses still to come -/

/-- The byte stores among the accesses. -/
def pendingStores (ops : List WriteOp) : List (ℕ × UInt8) :=
  ops.filterMap fun
    | .storeData s => some s
    | _ => none

/-- How far the accesses advance `local_write_pos` altogether. -/
def pendingAdvance (ops : List WriteOp) : ℕ :=
  (ops.map WriteOp.advance).sum

/-- The accesses before the publishing store of an accepted call. -/
def WriteOp.IsLocal : WriteOp → Prop
  | .storeData _ => True
  | .addLocalWritePos _ => True
  | _ => False

lemma pendingStores_append (ops ops' : List WriteOp) :
    pendingStores (ops ++ ops') = pendingStores ops ++ pendingStores ops' :=
  List.filterMap_append

lemma pendingStores_map_storeData (ss : List (ℕ × UInt8)) :
    pendingStores (ss.map .storeData) = ss := by
  simp [pendingStores, List.filterMap_map]

lemma pendingAdvance_append (ops ops' : List WriteOp) :
    pendingAdvance (ops ++ ops') = pendingAdvance ops + pendingAdvance ops' := by
  simp [pendingAdvance]

lemma pendingAdvance_map_storeData (ss : List (ℕ × UInt8)) :
    pendingAdvance (ss.map .storeData) = 0 := by
  induction ss with
  | nil => rfl
  | cons s ss ih => simpa [pendingAdvance, WriteOp.advance] using ih

/-- The accesses of `frameOps` before the publishing store. -/
def frameLocalOps (a : ℕ) (msg : List UInt8) : List WriteOp :=
  (copyStores a (ringFormat.frame msg)).map .storeData ++
    [.addLocalWritePos (UInt64.ofNat (4 + msg.length))]

lemma frameOps_eq (a : ℕ) (msg : List UInt8) :
    frameOps a msg = frameLocalOps a msg ++ [.storeWritePos] := by
  simp [frameOps, frameLocalOps]

lemma isLocal_of_mem_map_storeData {ss : List (ℕ × UInt8)} {op : WriteOp}
    (h : op ∈ ss.map WriteOp.storeData) : op.IsLocal := by
  obtain ⟨s, _, rfl⟩ := List.mem_map.mp h
  trivial

lemma isLocal_of_mem_frameLocalOps {a : ℕ} {msg : List UInt8} {op : WriteOp}
    (h : op ∈ frameLocalOps a msg) : op.IsLocal := by
  rcases List.mem_append.mp h with h | h
  · exact isLocal_of_mem_map_storeData h
  · rw [List.mem_singleton] at h
    subst h
    trivial

lemma isLocal_of_mem_padOps {a pad : ℕ} {op : WriteOp} (h : op ∈ padOps a pad) :
    op.IsLocal := by
  rcases List.mem_append.mp h with h | h
  · exact isLocal_of_mem_map_storeData h
  · rw [List.mem_singleton] at h
    subst h
    trivial

lemma pendingStores_frameLocalOps (a : ℕ) (msg : List UInt8) :
    pendingStores (frameLocalOps a msg) = copyStores a (ringFormat.frame msg) := by
  rw [frameLocalOps, pendingStores_append, pendingStores_map_storeData]
  exact List.append_nil _

lemma pendingStores_padOps (a pad : ℕ) :
    pendingStores (padOps a pad) = copyStores a ringFormat.marker := by
  rw [padOps, pendingStores_append, pendingStores_map_storeData]
  exact List.append_nil _

lemma pendingAdvance_frameLocalOps {a : ℕ} {msg : List UInt8} (h : 4 + msg.length < 2 ^ 64) :
    pendingAdvance (frameLocalOps a msg) = 4 + msg.length := by
  have hadd : pendingAdvance [.addLocalWritePos (UInt64.ofNat (4 + msg.length))] =
      4 + msg.length := by
    simp only [pendingAdvance, List.map_cons, List.map_nil, List.sum_cons, List.sum_nil,
      WriteOp.advance, toNat_counter]
    omega
  rw [frameLocalOps, pendingAdvance_append, pendingAdvance_map_storeData, hadd, Nat.zero_add]

lemma pendingAdvance_padOps {a pad : ℕ} (h : pad < 2 ^ 64) :
    pendingAdvance (padOps a pad) = pad := by
  have hadd : pendingAdvance [.addLocalWritePos (UInt64.ofNat pad)] = pad := by
    simp only [pendingAdvance, List.map_cons, List.map_nil, List.sum_cons, List.sum_nil,
      WriteOp.advance, toNat_counter]
    omega
  rw [padOps, pendingAdvance_append, pendingAdvance_map_storeData, hadd, Nat.zero_add]

/-! ## The invariant -/

namespace Spsc

/-- What the producer may store while positions `[p, q)` are unread: a byte of the ring outside that
region, or the marker byte behind the end of the ring. -/
def SafeStore (C p q : ℕ) (st : ℕ × UInt8) : Prop :=
  (st.1 < C ∧ ∀ x, p ≤ x → x < q → x % C ≠ st.1) ∨ (C ≤ st.1 ∧ st.2 = ringFormat.mark)

/-- Between calls, or refusing a message, the producer has announced everything it has written. In
an accepting call the accesses still to come leave one frame behind the announced position and then
publish it. -/
def ProducerAt (C : ℕ) (s : Spsc) : Prop :=
  ((s.ops = [] ∨ s.ops = [.fetchAddDropped]) ∧ s.written = s.announced) ∨
    ∃ todo, s.ops = todo ++ [.storeWritePos] ∧ (∀ op ∈ todo, op.IsLocal) ∧
      (∀ st ∈ pendingStores todo, SafeStore C s.consumed s.announced st) ∧
      s.announced ≤ s.written ∧ s.written + pendingAdvance todo ≤ s.consumed + C ∧
      Frames ringFormat (s.rb.data.storeAll (pendingStores todo)) C s.announced
        (s.written + pendingAdvance todo) [s.message]

/-- What the consumer knows of the unread region, which holds `pending`. -/
def ConsumerAt (C : ℕ) (s : Spsc) (pending : List (List UInt8)) : Prop :=
  match s.pc with
  | .loop => Frames ringFormat s.rb.data C s.consumed s.announced pending
  | .restart => Frames ringFormat s.rb.data C s.consumed s.announced pending ∧
      s.consumed % C = 0 ∧ pending ≠ []
  | .gotLen offset len => ∃ msg msgs, pending = msg :: msgs ∧
      offset.toNat = s.consumed % C ∧ len.toNat = msg.length ∧
      Frames.HeadFrame ringFormat s.rb.data C s.consumed s.announced msg msgs

/-- The invariant of the system on a ring of `2 ^ k` bytes. -/
structure Inv (k : ℕ) (s : Spsc) : Prop where
  geometry : Geometry s.rb k
  localWritePos_eq : s.rb.localWritePos = UInt64.ofNat s.written
  writePos_eq : s.rb.header.writePos = UInt64.ofNat s.announced
  pos_eq : s.pos = UInt64.ofNat s.consumed
  published_le : ∀ r ∈ s.published, r ≤ s.consumed
  announced_le : s.announced ≤ s.consumed + 2 ^ k
  producer : ProducerAt (2 ^ k) s
  pending : ∃ pending, s.accepted = s.delivered ++ pending ∧ ConsumerAt (2 ^ k) s pending

lemma ConsumerAt.frames {C : ℕ} {s : Spsc} {pending : List (List UInt8)}
    (h : ConsumerAt C s pending) :
    Frames ringFormat s.rb.data C s.consumed s.announced pending := by
  unfold ConsumerAt at h
  split at h
  · exact h
  · exact h.1
  · obtain ⟨msg, msgs, rfl, _, _, hhead⟩ := h
    exact hhead.frames

lemma Inv.consumed_le {k : ℕ} {s : Spsc} (h : Inv k s) : s.consumed ≤ s.announced := by
  obtain ⟨pending, _, hcons⟩ := h.pending
  exact hcons.frames.le

lemma ProducerAt.announced_le_written {C : ℕ} {s : Spsc} (h : ProducerAt C s) :
    s.announced ≤ s.written := by
  rcases h with ⟨_, heq⟩ | ⟨todo, _, _, _, hle, _⟩
  · exact Nat.le_of_eq heq.symm
  · exact hle

lemma ProducerAt.written_le {C : ℕ} {s : Spsc} (h : ProducerAt C s)
    (hann : s.announced ≤ s.consumed + C) : s.written ≤ s.consumed + C := by
  rcases h with ⟨_, heq⟩ | ⟨todo, _, _, _, _, hle, _⟩
  · omega
  · omega

/-! ## The initial state -/

lemma inv_initial {rb : LumbreRingbuf} {capacity : UInt32} {k : ℕ}
    (hinit : Initialised capacity rb) (hcap : capacity.toNat = 2 ^ k) : Inv k (initial rb) := by
  have hg := hinit.geometry hcap
  obtain ⟨fd, path, pid, workerId, rfl⟩ := hinit.eq_openRing_of_toNat hcap
  exact
    { geometry := hg
      localWritePos_eq := rfl
      writePos_eq := rfl
      pos_eq := rfl
      published_le := fun r hr => by simpa [initial] using hr
      announced_le := Nat.zero_le _
      producer := Or.inl ⟨Or.inl rfl, rfl⟩
      pending := ⟨[], rfl, Frames.nil 0⟩ }

/-! ## The producer's steps -/

section producer

variable {k : ℕ} {s : Spsc}

/-- A store of the new message at `y = announced + j` cannot hit the unread region. -/
lemma safeStore_of_position {C p q y : ℕ} {b : UInt8} (hC : 0 < C) (hq : q ≤ y) (hy : y < p + C) :
    SafeStore C p q (y % C, b) := by
  refine Or.inl ⟨Nat.mod_lt y hC, ?_⟩
  intro x hpx hxq
  exact Frames.mod_ne_of_lt_of_lt (by omega) (by omega)

/-- The stores of a frame at the offset of the announced position. -/
lemma safeStore_of_mem_frame {C p q : ℕ} {msg : List UInt8} {st : ℕ × UInt8}
    (hfit : q % C + 4 + msg.length ≤ C) (hroom : q + 4 + msg.length ≤ p + C)
    (hst : st ∈ copyStores (q % C) (ringFormat.frame msg)) : SafeStore C p q st := by
  obtain ⟨i, b⟩ := st
  obtain ⟨hle, hlt⟩ := bounds_of_mem_copyStores hst
  rw [FrameFormat.frame_length, ringFormat_width] at hlt
  simp only at hle hlt
  have hi : i = (q + (i - q % C)) % C := by
    rw [Frames.add_mod_of_lt (by omega)]
    omega
  rw [hi]
  exact safeStore_of_position (by omega) (by omega) (by omega)

/-- The stores of a marker at the offset of the announced position: inside the ring they are behind
the unread region, and beyond its end they are marker bytes. -/
lemma safeStore_of_mem_marker {C p q : ℕ} {st : ℕ × UInt8} (hC : 0 < C)
    (hroom : q + (C - q % C) ≤ p + C) (hst : st ∈ copyStores (q % C) ringFormat.marker) :
    SafeStore C p q st := by
  have hbyte : st.2 = ringFormat.mark := List.eq_of_mem_replicate (snd_mem_of_mem_copyStores hst)
  obtain ⟨i, b⟩ := st
  obtain ⟨hle, hlt⟩ := bounds_of_mem_copyStores hst
  have hqlt := Nat.mod_lt q hC
  simp only at hle hlt hbyte
  by_cases hend : i < C
  · have hi : i = (q + (i - q % C)) % C := by
      rw [Frames.add_mod_of_lt (by omega)]
      omega
    rw [hi]
    exact safeStore_of_position hC (by omega) (by omega)
  · exact Or.inr ⟨by simp only; omega, hbyte⟩

/-- The stores of a frame at offset `0`, behind a padding marker. -/
lemma safeStore_of_mem_wrapped_frame {C p q : ℕ} {msg : List UInt8} {st : ℕ × UInt8} (hC : 0 < C)
    (hpq : p ≤ q) (hroom : q + (C - q % C) + 4 + msg.length ≤ p + C)
    (hst : st ∈ copyStores 0 (ringFormat.frame msg)) : SafeStore C p q st := by
  obtain ⟨i, b⟩ := st
  obtain ⟨_, hlt⟩ := bounds_of_mem_copyStores hst
  rw [FrameFormat.frame_length, ringFormat_width] at hlt
  simp only at hlt
  have hqlt := Nat.mod_lt q hC
  have hi : i = (q + (C - q % C) + i) % C := by
    rw [Frames.add_padding_mod hC, Nat.mod_eq_of_lt (by omega)]
  rw [hi]
  exact safeStore_of_position hC (by omega) (by omega)

/-- A call that will store one frame behind the announced position. -/
lemma ProducerAt.ofFrame {C : ℕ} (hC : C ≤ 2 ^ 31) (hwritten : s.written = s.announced)
    (hops : s.ops = frameOps (s.announced % C) s.message)
    (hfit : s.announced % C + 4 + s.message.length ≤ C)
    (hroom : s.announced + 4 + s.message.length ≤ s.consumed + C) : ProducerAt C s := by
  have hadvance : pendingAdvance (frameLocalOps (s.announced % C) s.message) =
      4 + s.message.length := pendingAdvance_frameLocalOps (by omega)
  have hframe := Frames.store_frame ringFormat s.rb.data s.message hfit
  refine Or.inr ⟨frameLocalOps (s.announced % C) s.message, ?_, ?_, ?_,
    Nat.le_of_eq hwritten.symm, ?_, ?_⟩
  · rw [hops, frameOps_eq]
  · intro op hop
    exact isLocal_of_mem_frameLocalOps hop
  · intro st hst
    rw [pendingStores_frameLocalOps] at hst
    exact safeStore_of_mem_frame hfit hroom hst
  · rw [hadvance, hwritten, ← Nat.add_assoc]
    exact hroom
  · rw [hadvance, hwritten, pendingStores_frameLocalOps, ← Nat.add_assoc]
    exact hframe

/-- A call that will store a padding marker behind the announced position, and a frame at
offset `0`. -/
lemma ProducerAt.ofPaddedFrame {C : ℕ} (hpos : 0 < C) (hC : C ≤ 2 ^ 31)
    (hwritten : s.written = s.announced) (hconsumed : s.consumed ≤ s.announced)
    (hops : s.ops = padOps (s.announced % C) (C - s.announced % C) ++ frameOps 0 s.message)
    (hroom : s.announced + (C - s.announced % C) + 4 + s.message.length ≤ s.consumed + C) :
    ProducerAt C s := by
  have hoffset := Nat.mod_lt s.announced hpos
  have hadvance : pendingAdvance (padOps (s.announced % C) (C - s.announced % C) ++
      frameLocalOps 0 s.message) = C - s.announced % C + 4 + s.message.length := by
    rw [pendingAdvance_append, pendingAdvance_padOps (by omega),
      pendingAdvance_frameLocalOps (by omega), Nat.add_assoc]
  have hstores : pendingStores (padOps (s.announced % C) (C - s.announced % C) ++
      frameLocalOps 0 s.message) = copyStores (s.announced % C) ringFormat.marker ++
        copyStores 0 (ringFormat.frame s.message) := by
    rw [pendingStores_append, pendingStores_padOps, pendingStores_frameLocalOps]
  have hend : ringFormat.width + s.message.length ≤ s.announced % C := by
    rw [ringFormat_width]
    omega
  have hframe := Frames.store_padded_frame ringFormat s.rb.data s.message hpos hend
  refine Or.inr ⟨padOps (s.announced % C) (C - s.announced % C) ++ frameLocalOps 0 s.message,
    ?_, ?_, ?_, Nat.le_of_eq hwritten.symm, ?_, ?_⟩
  · rw [hops, frameOps_eq, List.append_assoc]
  · intro op hop
    rcases List.mem_append.mp hop with hop | hop
    · exact isLocal_of_mem_padOps hop
    · exact isLocal_of_mem_frameLocalOps hop
  · intro st hst
    rw [hstores] at hst
    rcases List.mem_append.mp hst with hst | hst
    · exact safeStore_of_mem_marker hpos (by omega) hst
    · exact safeStore_of_mem_wrapped_frame hpos hconsumed hroom hst
  · rw [hadvance, hwritten]
    omega
  · rw [hadvance, hwritten, hstores, Mem.storeAll_append, ← Nat.add_assoc, ← Nat.add_assoc]
    exact hframe

/-- Between two calls everything written has been announced. -/
lemma ProducerAt.written_eq {C : ℕ} (h : ProducerAt C s) (hidle : s.ops = []) :
    s.written = s.announced := by
  rcases h with ⟨_, heq⟩ | ⟨todo, hops, _⟩
  · exact heq
  · rw [hidle] at hops
    exact absurd hops.symm (List.append_ne_nil_of_right_ne_nil todo (List.cons_ne_nil _ _))

/-- A call that starts preserves the invariant, if the position it saw is recent. -/
lemma Inv.beginWrite (h : Inv k s) (hk : 2 ≤ k) {payload : Mem} {payloadLen : UInt32} {r : ℕ}
    (hidle : s.ops = []) (hr : r ∈ s.published) (hobs : ObservesRecent s r) :
    Inv k (s.beginWrite payload payloadLen r) := by
  have hcapLe := h.geometry.capacity_le
  have hpos := Nat.two_pow_pos k
  have hcons := h.consumed_le
  have hrle := h.published_le r hr
  have hwritten : s.written = s.announced := h.producer.written_eq hidle
  rw [ObservesRecent, h.geometry.capacity] at hobs
  have hoffset : s.rb.offset = s.announced % 2 ^ k := by
    rw [LumbreRingbuf.offset, h.localWritePos_eq, h.geometry.capacity, hwritten,
      counter_mod_two_pow (by have := h.geometry.k_le; omega)]
  have hused : s.rb.used (UInt64.ofNat r) = s.announced - r := by
    rw [LumbreRingbuf.used, h.localWritePos_eq, hwritten,
      toNat_counter_sub (by omega) (by omega)]
  have hlength : (payload.load 0 payloadLen.toNat).length = payloadLen.toNat :=
    Mem.load_length payload 0 payloadLen.toNat
  have hproducer : ProducerAt (2 ^ k) (s.beginWrite payload payloadLen r) := by
    rcases lumbreRingbufWriteOps_cases h.geometry hk (UInt64.ofNat r) payload payloadLen with
      ⟨_, hops⟩ | ⟨⟨hfit, hspace, hend⟩, hops⟩ | ⟨⟨hfit, hspace, hend, hpadded⟩, hops⟩
    · refine Or.inl ⟨Or.inr ?_, hwritten⟩
      exact congrArg Prod.snd hops
    · rw [hoffset] at hend hops
      rw [hused] at hspace
      apply ProducerAt.ofFrame (s := s.beginWrite payload payloadLen r) hcapLe hwritten
        (congrArg Prod.snd hops)
      · change s.announced % 2 ^ k + 4 + (payload.load 0 payloadLen.toNat).length ≤ 2 ^ k
        omega
      · change s.announced + 4 + (payload.load 0 payloadLen.toNat).length ≤ s.consumed + 2 ^ k
        omega
    · rw [hoffset] at hend hpadded hops
      rw [hused] at hspace hpadded
      have hoffLt := Nat.mod_lt s.announced hpos
      apply ProducerAt.ofPaddedFrame (s := s.beginWrite payload payloadLen r) hpos hcapLe hwritten
        hcons (congrArg Prod.snd hops)
      change s.announced + (2 ^ k - s.announced % 2 ^ k) + 4 +
        (payload.load 0 payloadLen.toNat).length ≤ s.consumed + 2 ^ k
      omega
  exact { h with producer := hproducer, pending := h.pending }

/-- A safe store leaves the unread region as it is. -/
lemma agree_store {C p q : ℕ} {m : Mem} {st : ℕ × UInt8} (hC : 0 < C)
    (h : SafeStore C p q st) : Frames.Agree ringFormat m (m.store st) C p q := by
  constructor
  · intro x hpx hxq
    have hne : x % C ≠ st.1 := by
      rcases h with ⟨_, hx⟩ | ⟨hle, _⟩
      · exact hx x hpx hxq
      · have := Nat.mod_lt x hC
        omega
    exact Function.update_of_ne hne st.2 m
  · intro i hi hmark
    by_cases his : i = st.1
    · subst his
      rcases h with ⟨hlt, _⟩ | ⟨_, hbyte⟩
      · omega
      · rw [Mem.store, Function.update_self, hbyte]
    · rw [Mem.store, Function.update_of_ne his, hmark]

/-- The consumer's knowledge survives stores outside the unread region. -/
lemma ConsumerAt.congr {C : ℕ} {s s' : Spsc} {pending : List (List UInt8)}
    (h : ConsumerAt C s pending) (hpc : s'.pc = s.pc) (hconsumed : s'.consumed = s.consumed)
    (hannounced : s'.announced = s.announced)
    (hagree : Frames.Agree ringFormat s.rb.data s'.rb.data C s.consumed s.announced) :
    ConsumerAt C s' pending := by
  unfold ConsumerAt at h ⊢
  rw [hpc, hconsumed, hannounced]
  cases hcase : s.pc with
  | loop =>
      rw [hcase] at h
      exact h.congr hagree
  | restart =>
      rw [hcase] at h
      exact ⟨h.1.congr hagree, h.2⟩
  | gotLen offset len =>
      rw [hcase] at h
      obtain ⟨msg, msgs, heq, hoff, hlen, hhead⟩ := h
      exact ⟨msg, msgs, heq, hoff, hlen, hhead.congr hagree⟩

/-- The consumer's knowledge when one more frame is announced. -/
lemma ConsumerAt.append {C : ℕ} {s s' : Spsc} {pending : List (List UInt8)} {msg : List UInt8}
    (h : ConsumerAt C s pending) (hpc : s'.pc = s.pc) (hconsumed : s'.consumed = s.consumed)
    (hdata : s'.rb.data = s.rb.data)
    (hframe : Frames ringFormat s.rb.data C s.announced s'.announced [msg]) :
    ConsumerAt C s' (pending ++ [msg]) := by
  unfold ConsumerAt at h ⊢
  rw [hpc, hconsumed, hdata]
  cases hcase : s.pc with
  | loop =>
      rw [hcase] at h
      exact h.append hframe
  | restart =>
      rw [hcase] at h
      exact ⟨h.1.append hframe, h.2.1, by simp⟩
  | gotLen offset len =>
      rw [hcase] at h
      obtain ⟨first, msgs, rfl, hoff, hlen, hhead⟩ := h
      exact ⟨first, msgs ++ [msg], rfl, hoff, hlen, hhead.append hframe⟩

/-- The counter of a refused message is none of the invariant's business. -/
lemma Inv.performRefusal (h : Inv k s) (hwritten : s.written = s.announced) :
    Inv k (s.perform .fetchAddDropped []) :=
  { h with
    geometry := h.geometry.exec .fetchAddDropped
    producer := Or.inl ⟨Or.inl rfl, hwritten⟩
    pending := h.pending }

/-- The publishing store announces the frame behind the announced position. -/
lemma Inv.performPublish (h : Inv k s) (hroom : s.written ≤ s.consumed + 2 ^ k)
    (hframe : Frames ringFormat s.rb.data (2 ^ k) s.announced s.written [s.message]) :
    Inv k (s.perform .storeWritePos []) := by
  obtain ⟨pending, haccepted, hconsumer⟩ := h.pending
  exact
    { h with
      geometry := h.geometry.exec .storeWritePos
      writePos_eq := h.localWritePos_eq
      announced_le := hroom
      producer := Or.inl ⟨Or.inl rfl, rfl⟩
      pending := ⟨pending ++ [s.message],
        by simp only [Spsc.perform, if_pos, haccepted, List.append_assoc],
        hconsumer.append rfl rfl rfl hframe⟩ }

/-- A byte of the message is stored outside the unread region. -/
lemma Inv.performStore (h : Inv k s) {st : ℕ × UInt8} {rest : List WriteOp}
    (hst : SafeStore (2 ^ k) s.consumed s.announced st)
    (hproducer : ProducerAt (2 ^ k) (s.perform (.storeData st) rest)) :
    Inv k (s.perform (.storeData st) rest) := by
  obtain ⟨pending, haccepted, hconsumer⟩ := h.pending
  have hagree := agree_store (m := s.rb.data) (Nat.two_pow_pos k) hst
  exact
    { h with
      geometry := h.geometry.exec (.storeData st)
      producer := hproducer
      pending := ⟨pending, haccepted, hconsumer.congr rfl rfl rfl hagree⟩ }

/-- The position advances over what has been stored. -/
lemma Inv.performAdvance (h : Inv k s) {n : UInt64} {rest : List WriteOp}
    (hproducer : ProducerAt (2 ^ k) (s.perform (.addLocalWritePos n) rest)) :
    Inv k (s.perform (.addLocalWritePos n) rest) := by
  have hcounter : s.rb.localWritePos + n = UInt64.ofNat (s.written + n.toNat) := by
    rw [h.localWritePos_eq, counter_add]
  exact
    { h with
      geometry := h.geometry.exec (.addLocalWritePos n)
      localWritePos_eq := hcounter
      producer := hproducer
      pending := h.pending }

/-- An access of the call in progress preserves the invariant. -/
lemma Inv.perform (h : Inv k s) {op : WriteOp} {rest : List WriteOp}
    (hops : s.ops = op :: rest) : Inv k (s.perform op rest) := by
  rcases h.producer with ⟨hidle | hrefusing, hwritten⟩ |
    ⟨todo, htodo, hlocal, hsafe, hann, hroom, hframe⟩
  · rw [hidle] at hops
    exact absurd hops (List.cons_ne_nil _ _).symm
  · rw [hrefusing] at hops
    obtain ⟨rfl, rfl⟩ := List.cons.inj hops
    exact h.performRefusal hwritten
  rw [htodo] at hops
  cases todo with
  | nil =>
      obtain ⟨rfl, rfl⟩ := List.cons.inj hops
      exact h.performPublish hroom hframe
  | cons op' todo =>
      obtain ⟨rfl, rfl⟩ := List.cons.inj hops
      have htail : ∀ op ∈ todo, op.IsLocal := fun op hop => hlocal op (List.mem_cons_of_mem _ hop)
      -- what is stored and advanced by the access is no longer to come
      cases op' with
      | fetchAddDropped => exact (hlocal _ List.mem_cons_self).elim
      | storeWritePos => exact (hlocal _ List.mem_cons_self).elim
      | storeData st =>
          have hadvance : pendingAdvance (.storeData st :: todo) = pendingAdvance todo :=
            Nat.zero_add _
          rw [hadvance] at hroom hframe
          apply h.performStore (hsafe st List.mem_cons_self)
          refine Or.inr ⟨todo, rfl, htail, ?_, hann, hroom, hframe⟩
          intro st' hst'
          exact hsafe st' (List.mem_cons_of_mem _ hst')
      | addLocalWritePos n =>
          have hadvance : s.written + pendingAdvance (.addLocalWritePos n :: todo) =
              s.written + n.toNat + pendingAdvance todo := (Nat.add_assoc _ _ _).symm
          rw [hadvance] at hroom hframe
          apply h.performAdvance
          exact Or.inr ⟨todo, rfl, htail, hsafe, Nat.le_add_right_of_le hann, hroom, hframe⟩

end producer

/-! ## The consumer's steps -/

section consumer

variable {k : ℕ} {s : Spsc}

/-- The length of a frame reads back. -/
lemma toNat_load32_of_header {m : Mem} {offset : UInt32} {n : ℕ} (hn : n < 2 ^ 32)
    (h : m.load offset.toNat 4 = leBytes 4 n) : (load32 m offset).toNat = n := by
  rw [load32, h, ofLeBytes_leBytes_of_lt (by omega), UInt32.toNat_ofNat']
  omega

lemma load32_of_marker {m : Mem} {offset : UInt32}
    (h : m.load offset.toNat 4 = ringFormat.marker) :
    load32 m offset = lumbreRingbufPaddingMarker := by
  rw [load32, h]
  decide

/-- The offset the consumer reads at. -/
lemma Inv.toNat_offset (h : Inv k s) :
    (s.pos &&& s.rb.mask.toUInt64).toUInt32.toNat = s.consumed % 2 ^ k := by
  rw [h.geometry.toNat_offset, h.pos_eq,
    counter_mod_two_pow (by have := h.geometry.k_le; omega)]

/-- The producer's obligations get weaker as the consumer advances. -/
lemma ProducerAt.consume {C : ℕ} {s s' : Spsc} (h : ProducerAt C s) (hops : s'.ops = s.ops)
    (hdata : s'.rb.data = s.rb.data) (hmessage : s'.message = s.message)
    (hwritten : s'.written = s.written) (hannounced : s'.announced = s.announced)
    (hle : s.consumed ≤ s'.consumed) : ProducerAt C s' := by
  unfold ProducerAt at h ⊢
  rw [hops, hdata, hmessage, hwritten, hannounced]
  rcases h with h | ⟨todo, htodo, hlocal, hsafe, hann, hroom, hframe⟩
  · exact Or.inl h
  · refine Or.inr ⟨todo, htodo, hlocal, ?_, hann, by omega, hframe⟩
    intro st hst
    rcases hsafe st hst with ⟨hlt, hx⟩ | hbehind
    · exact Or.inl ⟨hlt, fun x hpx hxq => hx x (by omega) hxq⟩
    · exact Or.inr hbehind

/-- Reading the length of the first pending message. -/
lemma Inv.readLength (h : Inv k s) {msg : List UInt8} {msgs : List (List UInt8)}
    (haccepted : s.accepted = s.delivered ++ msg :: msgs)
    (hhead : Frames.HeadFrame ringFormat s.rb.data (2 ^ k) s.consumed s.announced msg msgs) :
    Inv k s.readHeader := by
  have hcapLe := h.geometry.capacity_le
  have hoffset := h.toNat_offset
  have hfit := hhead.fit
  rw [ringFormat_width] at hfit
  have hword : (load32 s.rb.data (s.pos &&& s.rb.mask.toUInt64).toUInt32).toNat = msg.length := by
    apply toNat_load32_of_header (by omega)
    rw [hoffset]
    exact hhead.header
  have hnotMarker : load32 s.rb.data (s.pos &&& s.rb.mask.toUInt64).toUInt32 ≠
      lumbreRingbufPaddingMarker := by
    intro heq
    rw [heq] at hword
    have hmarker : lumbreRingbufPaddingMarker.toNat = 2 ^ 32 - 1 := rfl
    omega
  have hstep : s.readHeader =
      { s with
        pc := (.gotLen (s.pos &&& s.rb.mask.toUInt64).toUInt32
          (load32 s.rb.data (s.pos &&& s.rb.mask.toUInt64).toUInt32)) } := by
    simp only [Spsc.readHeader, if_neg hnotMarker]
  rw [hstep]
  exact
    { h with
      producer := h.producer
      pending := ⟨msg :: msgs, haccepted, msg, msgs, rfl, hoffset, hword, hhead⟩ }

/-- Reading a padding marker: the position moves to the next offset `0`. -/
lemma Inv.readMarker (h : Inv k s) {pending : List (List UInt8)} (hne : pending ≠ [])
    (haccepted : s.accepted = s.delivered ++ pending)
    (hmark : s.rb.data.load (s.consumed % 2 ^ k) 4 = ringFormat.marker)
    (hrest : Frames ringFormat s.rb.data (2 ^ k) (s.consumed + (2 ^ k - s.consumed % 2 ^ k))
      s.announced pending) :
    Inv k s.readHeader := by
  have hpos := Nat.two_pow_pos k
  have hoffset := h.toNat_offset
  have hoffLt := Nat.mod_lt s.consumed hpos
  have hmarker : load32 s.rb.data (s.pos &&& s.rb.mask.toUInt64).toUInt32 =
      lumbreRingbufPaddingMarker := by
    apply load32_of_marker
    rw [hoffset]
    exact hmark
  have hpad : (s.rb.capacity - (s.pos &&& s.rb.mask.toUInt64).toUInt32).toNat =
      2 ^ k - s.consumed % 2 ^ k := by
    rw [UInt32.toNat_sub_of_le _ _
      (by rw [UInt32.le_iff_toNat_le, hoffset, h.geometry.capacity]; omega),
      hoffset, h.geometry.capacity]
  have hstep : s.readHeader =
      { s with
        pos := s.pos + (s.rb.capacity - (s.pos &&& s.rb.mask.toUInt64).toUInt32).toUInt64
        consumed := s.consumed + (2 ^ k - s.consumed % 2 ^ k)
        pc := .restart } := by
    simp only [Spsc.readHeader, if_pos hmarker, hpad]
  rw [hstep]
  exact
    { h with
      pos_eq := by
        simp only [h.pos_eq, counter_add, UInt32.toNat_toUInt64]
        rw [← h.pos_eq, hpad]
      published_le := fun r hr => Nat.le_add_right_of_le (h.published_le r hr)
      announced_le := le_trans h.announced_le (Nat.add_le_add_right (Nat.le_add_right _ _) _)
      producer := h.producer.consume rfl rfl rfl rfl rfl (Nat.le_add_right _ _)
      pending := ⟨pending, haccepted, hrest, Frames.add_padding_mod hpos s.consumed 0, hne⟩ }

/-- Reading the word at the consumer's position preserves the invariant. -/
lemma Inv.readHeader (h : Inv k s) (hne : s.pos ≠ s.rb.header.writePos) :
    Inv k s.readHeader := by
  obtain ⟨pending, haccepted, hconsumer⟩ := h.pending
  have hframes := hconsumer.frames
  have hunread : s.consumed ≠ s.announced := by
    intro heq
    apply hne
    rw [h.pos_eq, h.writePos_eq, heq]
  obtain ⟨msg, msgs, rfl⟩ := List.exists_cons_of_ne_nil (hframes.ne_nil_of_ne hunread)
  rcases hframes.headFrame_or_pad with hhead | ⟨_, hmark, hrest⟩
  · exact h.readLength haccepted hhead
  · exact h.readMarker (List.cons_ne_nil msg msgs) haccepted hmark hrest

/-- Reading the length at offset `0`, behind a padding marker, preserves the invariant. -/
lemma Inv.readRestart (h : Inv k s) (hpc : s.pc = .restart) : Inv k s.readRestart := by
  have hcapLe := h.geometry.capacity_le
  obtain ⟨pending, haccepted, hconsumer⟩ := h.pending
  unfold ConsumerAt at hconsumer
  rw [hpc] at hconsumer
  obtain ⟨hframes, hzero, hnonempty⟩ := hconsumer
  obtain ⟨msg, msgs, rfl⟩ := List.exists_cons_of_ne_nil hnonempty
  have hhead := Frames.headFrame_of_offset_zero hframes hzero
  have hfit := hhead.fit
  have hlen := hhead.header
  rw [hzero] at hlen
  rw [ringFormat_width] at hfit
  exact
    { h with
      producer := h.producer
      pending := ⟨msg :: msgs, haccepted, msg, msgs, rfl, hzero.symm,
        toNat_load32_of_header (by omega) hlen, hhead⟩ }

/-- Delivering preserves the invariant. -/
lemma Inv.deliver (h : Inv k s) {offset len : UInt32} (hpc : s.pc = .gotLen offset len) :
    Inv k (s.deliver offset len) := by
  have hcapLe := h.geometry.capacity_le
  obtain ⟨pending, haccepted, hconsumer⟩ := h.pending
  unfold ConsumerAt at hconsumer
  rw [hpc] at hconsumer
  obtain ⟨msg, msgs, rfl, hoff, hlen, hhead⟩ := hconsumer
  have hfit := hhead.fit
  have hbody := hhead.body
  have hrest := hhead.rest
  rw [ringFormat_width] at hfit hbody hrest
  have hfour : (4 : UInt32).toNat = 4 := rfl
  have hpayload : (offset + 4).toNat = s.consumed % 2 ^ k + 4 := by
    rw [UInt32.toNat_add, hoff, hfour]
    omega
  have hstep : (4 + len).toNat = 4 + msg.length := by
    rw [UInt32.toNat_add, hlen, hfour]
    omega
  have hdeliver : s.deliver offset len =
      { s with
        delivered := s.delivered ++ [msg]
        pos := s.pos + (4 + len).toUInt64
        consumed := s.consumed + (4 + msg.length)
        pc := .loop } := by
    simp only [Spsc.deliver, hpayload, hlen, hbody, hstep]
  rw [hdeliver]
  exact
    { geometry := h.geometry
      localWritePos_eq := h.localWritePos_eq
      writePos_eq := h.writePos_eq
      pos_eq := by simp only [h.pos_eq, counter_add, UInt32.toNat_toUInt64, hstep]
      published_le := fun r hr => Nat.le_add_right_of_le (h.published_le r hr)
      announced_le := le_trans h.announced_le (Nat.add_le_add_right (Nat.le_add_right _ _) _)
      producer := h.producer.consume rfl rfl rfl rfl rfl (Nat.le_add_right _ _)
      pending := ⟨msgs, by simp [haccepted], by rwa [Nat.add_assoc] at hrest⟩ }

/-- Publishing the position preserves the invariant. -/
lemma Inv.publish (h : Inv k s) : Inv k s.publish := by
  obtain ⟨pending, haccepted, hconsumer⟩ := h.pending
  exact
    { geometry := ⟨h.geometry.capacity, h.geometry.mask⟩
      localWritePos_eq := h.localWritePos_eq
      writePos_eq := h.writePos_eq
      pos_eq := h.pos_eq
      published_le := by
        intro r hr
        rcases List.mem_append.mp hr with hr | hr
        · exact h.published_le r hr
        · exact Nat.le_of_eq (List.mem_singleton.mp hr)
      announced_le := h.announced_le
      producer := h.producer
      pending := ⟨pending, haccepted, hconsumer⟩ }

end consumer

end Spsc

end LumbreExt
