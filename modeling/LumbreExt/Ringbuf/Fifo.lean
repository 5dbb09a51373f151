import LumbreExt.Ringbuf.Bounds
import LumbreExt.Ringbuf.Invariant

/-!
# The ring delivers in order and exactly once

* `delivered_prefix_accepted` — the FIFO law, for runs in which the producer sees any published
  position less than `2 ^ 64 - capacity` bytes behind.
* `exists_uninterrupted` — a call none of whose accesses is interleaved with anything has the effect
  of `LumbreRingbuf.execAll`, which is how `lumbreRingbufWrite` runs it.
* `stale_read_pos_overwrites` — without the bound the law fails: after `2 ^ 64` bytes a position
  published at the start is the same 64-bit value as the write position, and a full ring looks
  empty.
-/

namespace LumbreExt

open Lib

namespace Spsc

/-! ## Runs -/

section runs

variable {capacity : UInt32} {rb : LumbreRingbuf} {k : ℕ} {s : Spsc}

/-- Every step preserves the invariant. -/
lemma Inv.step {s' : Spsc} (h : Inv k s) (hk : 2 ≤ k) (hstep : Step ObservesRecent s s') :
    Inv k s' := by
  cases hstep with
  | beginWrite payload payloadLen r hidle hr hobs => exact h.beginWrite hk hidle hr hobs
  | perform hops => exact h.perform hops
  | readHeader _ hpos => exact h.readHeader hpos
  | readRestart hpc => exact h.readRestart hpc
  | deliver hpc => exact h.deliver hpc
  | publish => exact h.publish

/-- The invariant holds in every state of every run. -/
lemma inv_of_reachable (hinit : Initialised capacity rb) (hcap : capacity.toNat = 2 ^ k)
    (hk : 2 ≤ k) (hs : Reachable ObservesRecent rb s) : Inv k s := by
  induction hs with
  | refl => exact inv_initial hinit hcap
  | tail _ hstep ih => exact ih.step hk hstep

/-- When the consumer has reached the producer's position, nothing is pending. -/
lemma Inv.accepted_eq_of_caught_up (h : Inv k s) (heq : s.pos = s.rb.localWritePos) :
    s.delivered = s.accepted := by
  have hcapLe := h.geometry.capacity_le
  have hcons := h.consumed_le
  have hann := h.producer.announced_le_written
  have hwritten := h.producer.written_le h.announced_le
  obtain ⟨pending, haccepted, hconsumer⟩ := h.pending
  have hframes := hconsumer.frames
  rw [h.pos_eq, h.localWritePos_eq] at heq
  have hcaught := eq_of_counter_eq (by omega) (by omega) heq.symm
  have hempty : s.announced = s.consumed := by omega
  rw [hempty] at hframes
  rw [hframes.eq_nil_of_self, List.append_nil] at haccepted
  exact haccepted.symm

/-- **FIFO, exactly once.** On a ring of `2 ^ k ≥ 4` bytes, in every run of the producer and the
consumer in which each call sees a position published less than `2 ^ 64 - capacity` bytes ago, the
delivered payloads are a prefix of the accepted ones, and all of them whenever the consumer stands
at `local_write_pos`. -/
theorem delivered_prefix_accepted (hinit : Initialised capacity rb)
    (hcap : capacity.toNat = 2 ^ k) (hk : 2 ≤ k) (hs : Reachable ObservesRecent rb s) :
    s.delivered <+: s.accepted ∧
      (s.pos = s.rb.localWritePos → s.delivered = s.accepted) := by
  have h := inv_of_reachable hinit hcap hk hs
  obtain ⟨pending, haccepted, _⟩ := h.pending
  exact ⟨⟨pending, haccepted.symm⟩, h.accepted_eq_of_caught_up⟩

end runs

/-! ## Uninterrupted calls and loop iterations -/

section uninterrupted

variable (Observes : Spsc → ℕ → Prop) {s : Spsc}

/-- An accepted call that runs to its end without interruption: the ring is as `execAll` leaves it,
the message is accepted, and nothing of the consumer has changed. -/
lemma exists_uninterrupted {todo : List WriteOp} (hops : s.ops = todo ++ [.storeWritePos])
    (hlocal : ∀ op ∈ todo, op.IsLocal) :
    ∃ s', Relation.ReflTransGen (Step Observes) s s' ∧ s'.ops = [] ∧
      s'.rb = s.rb.execAll (todo ++ [.storeWritePos]) ∧ s'.accepted = s.accepted ++ [s.message] ∧
      s'.pos = s.pos ∧ s'.pc = s.pc ∧ s'.delivered = s.delivered ∧ s'.consumed = s.consumed ∧
      s'.published = s.published := by
  induction todo generalizing s with
  | nil =>
      exact ⟨s.perform .storeWritePos [], .single (.perform hops), rfl, rfl,
        by simp only [perform, if_pos], rfl, rfl, rfl, rfl, rfl⟩
  | cons op todo ih =>
      have hop : op ≠ .storeWritePos := by
        rintro rfl
        exact hlocal _ List.mem_cons_self
      obtain ⟨s', hsteps, hops', hrb, haccepted, hrest⟩ :=
        ih (s := s.perform op (todo ++ [.storeWritePos])) rfl
          fun op hop => hlocal op (List.mem_cons_of_mem _ hop)
      refine ⟨s', .head (.perform hops) hsteps, hops', hrb, ?_, hrest⟩
      simpa only [perform, if_neg hop] using haccepted

/-- Between calls and at the loop test, on the ring of 8 bytes, with the write position at count `w`
and the consumer at count `c`, both at offset `0`. -/
structure Quiet (w c : ℕ) (s : Spsc) : Prop where
  ops : s.ops = []
  pc : s.pc = .loop
  geometry : Geometry s.rb 3
  localWritePos : s.rb.localWritePos = UInt64.ofNat w
  writePos : s.rb.header.writePos = UInt64.ofNat w
  pos : s.pos = UInt64.ofNat c
  consumed : s.consumed = c
  writeOffset : w % 8 = 0
  readOffset : c % 8 = 0

lemma quiet_initial : Quiet 0 0 (initial ringOfEight) :=
  ⟨rfl, rfl, initialised_ringOfEight.geometry rfl, rfl, rfl, rfl, rfl, rfl, rfl⟩

/-- Four times the byte `b`. -/
def fourOf (b : UInt8) : List UInt8 := [b, b, b, b]

/-- A four-byte message fills the ring of 8 bytes. It is accepted whenever the position the call sees
shows the same 64-bit value as the write position. -/
lemma Quiet.write {w c r : ℕ} (h : Quiet w c s) (b : UInt8) (hr : r ∈ s.published)
    (hobs : Observes s r) (hsame : UInt64.ofNat w = UInt64.ofNat r) :
    ∃ s', Relation.ReflTransGen (Step Observes) s s' ∧ Quiet (w + 8) c s' ∧
      s'.accepted = s.accepted ++ [fourOf b] ∧ s'.delivered = s.delivered ∧
      s'.published = s.published ∧
      s'.rb.data = s.rb.data.storeAll (copyStores 0 (ringFormat.frame (fourOf b))) := by
  have hoffset : s.rb.offset = 0 := by
    rw [LumbreRingbuf.offset, h.localWritePos, h.geometry.capacity,
      counter_mod_two_pow (by decide)]
    exact h.writeOffset
  have hused : s.rb.used (UInt64.ofNat r) = 0 := by
    rw [LumbreRingbuf.used, h.localWritePos, hsame, UInt64.sub_self]
    rfl
  have hbegin : (s.beginWrite (fun _ => b) 4 r).ops =
      frameLocalOps 0 (fourOf b) ++ [.storeWritePos] := by
    rw [← frameOps_eq]
    rcases lumbreRingbufWriteOps_cases h.geometry (by decide) (UInt64.ofNat r) (fun _ => b) 4 with
      ⟨hrefused, _⟩ | ⟨_, hops⟩ | ⟨hwrapped, _⟩
    · rw [hoffset, hused] at hrefused
      exact absurd hrefused (by decide)
    · rw [hoffset] at hops
      simp only [Spsc.beginWrite, hops]
      rfl
    · rw [hoffset] at hwrapped
      obtain ⟨_, _, hend, _⟩ := hwrapped
      exact absurd hend (by decide)
  obtain ⟨s', hsteps, hops, hrb, haccepted, hpos, hpc, hdelivered, hconsumed, hpublished⟩ :=
    exists_uninterrupted Observes hbegin
      fun op hop => isLocal_of_mem_frameLocalOps hop
  rw [← frameOps_eq, LumbreRingbuf.execAll_frameOps] at hrb
  have hadvance : s.rb.localWritePos + UInt64.ofNat (4 + (fourOf b).length) =
      UInt64.ofNat (w + 8) := by
    rw [h.localWritePos, counter_add]
    rfl
  refine ⟨s', .head (.beginWrite (fun _ => b) 4 r h.ops hr hobs) hsteps, ?_, haccepted,
    hdelivered, hpublished, by rw [hrb]; rfl⟩
  exact
    { ops := hops
      pc := hpc.trans h.pc
      geometry := by
        rw [hrb]
        exact ⟨h.geometry.capacity, h.geometry.mask⟩
      localWritePos := by
        rw [hrb]
        exact hadvance
      writePos := by
        rw [hrb]
        exact hadvance
      pos := hpos.trans h.pos
      consumed := hconsumed.trans h.consumed
      writeOffset := by rw [Nat.add_mod_right]; exact h.writeOffset
      readOffset := h.readOffset }

/-- The consumer delivers what stands at offset `0` of the ring of 8 bytes and publishes. -/
lemma Quiet.read {w c : ℕ} {b : UInt8} (h : Quiet w c s)
    (hne : UInt64.ofNat c ≠ UInt64.ofNat w)
    (hheader : s.rb.data.load 0 4 = leBytes 4 4) (hbody : s.rb.data.load 4 4 = fourOf b) :
    ∃ s', Relation.ReflTransGen (Step Observes) s s' ∧ Quiet w (c + 8) s' ∧
      s'.delivered = s.delivered ++ [fourOf b] ∧ s'.accepted = s.accepted ∧
      s'.published = s.published ++ [c + 8] := by
  have hoffset : (s.pos &&& s.rb.mask.toUInt64).toUInt32 = 0 := by
    apply UInt32.toNat_inj.mp
    rw [h.geometry.toNat_offset, h.pos, counter_mod_two_pow (by decide)]
    exact h.readOffset
  have hlen : load32 s.rb.data 0 = 4 := by
    apply UInt32.toNat_inj.mp
    exact toNat_load32_of_header (by decide) hheader
  have hpos : s.pos ≠ s.rb.header.writePos := by
    rw [h.pos, h.writePos]
    exact hne
  have hread : s.readHeader = { s with pc := .gotLen 0 4 } := by
    simp only [Spsc.readHeader, hoffset, hlen]
    rfl
  have hstep : Step Observes s { s with pc := .gotLen 0 4 } := by
    rw [← hread]
    exact .readHeader h.pc hpos
  refine ⟨(Spsc.deliver { s with pc := .gotLen 0 4 } 0 4).publish,
    ((Relation.ReflTransGen.single hstep).tail (.deliver rfl)).tail .publish, ?_, ?_, rfl, ?_⟩
  · exact
      { ops := h.ops
        pc := rfl
        geometry := ⟨h.geometry.capacity, h.geometry.mask⟩
        localWritePos := h.localWritePos
        writePos := h.writePos
        pos := by
          change s.pos + ((4 + 4 : UInt32)).toUInt64 = UInt64.ofNat (c + 8)
          rw [h.pos, counter_add]
          rfl
        consumed := by
          change s.consumed + 8 = c + 8
          rw [h.consumed]
        writeOffset := h.writeOffset
        readOffset := by rw [Nat.add_mod_right]; exact h.readOffset }
  · change s.delivered ++ [s.rb.data.load 4 4] = s.delivered ++ [fourOf b]
    rw [hbody]
  · change s.published ++ [s.consumed + 8] = s.published ++ [c + 8]
    rw [h.consumed]

/-- The frame of a four-byte message at offset `0` reads back. -/
lemma load_fourOf {m m' : Mem} {b : UInt8}
    (h : m' = m.storeAll (copyStores 0 (ringFormat.frame (fourOf b)))) :
    m'.load 0 4 = leBytes 4 4 ∧ m'.load 4 4 = fourOf b := by
  subst h
  obtain ⟨hheader, hbody⟩ := Frames.load_frame_storeAll ringFormat m 0 (fourOf b)
  exact ⟨hheader, hbody⟩

/-- `n` messages, each delivered and its position published before the next is written. -/
lemma exists_cycles (n : ℕ) :
    ∃ s, Reachable ObservesAny ringOfEight s ∧ Quiet (8 * n) (8 * n) s ∧
      s.delivered = s.accepted ∧ ∀ j ≤ n, 8 * j ∈ s.published := by
  induction n with
  | zero =>
      refine ⟨_, .refl, quiet_initial, rfl, ?_⟩
      intro j hj
      rw [Nat.le_zero.mp hj]
      exact List.mem_singleton.mpr rfl
  | succ n ih =>
      obtain ⟨s, hreach, hquiet, hcaught, hpublished⟩ := ih
      obtain ⟨s₁, hsteps₁, hquiet₁, haccepted₁, hdelivered₁, hpublished₁, hdata₁⟩ :=
        hquiet.write ObservesAny 1 (hpublished n le_rfl) trivial rfl
      obtain ⟨hheader, hbody⟩ := load_fourOf hdata₁
      have hne : UInt64.ofNat (8 * n) ≠ UInt64.ofNat (8 * n + 8) := by
        intro heq
        have := eq_of_counter_eq (w := 8 * n + 8) (r := 8 * n) (by omega) (by omega) heq.symm
        omega
      obtain ⟨s₂, hsteps₂, hquiet₂, hdelivered₂, haccepted₂, hpublished₂⟩ :=
        hquiet₁.read ObservesAny hne hheader hbody
      refine ⟨s₂, (hreach.trans hsteps₁).trans hsteps₂, hquiet₂, ?_, ?_⟩
      · rw [hdelivered₂, hdelivered₁, haccepted₂, haccepted₁, hcaught]
      · intro j hj
        rw [hpublished₂, hpublished₁]
        rcases Nat.lt_or_ge n j with hlt | hle
        · obtain rfl : j = n + 1 := by omega
          exact List.mem_append_right _ (List.mem_singleton.mpr rfl)
        · exact List.mem_append_left _ (hpublished j hle)

/-- **A position that is `2 ^ 64` bytes stale makes a full ring look empty.** After `2 ^ 61` messages
of 8 bytes the write position shows `0` again; one more fills the ring of 8 bytes, and a call that
sees the position published after the very first message then overwrites it. -/
theorem stale_read_pos_overwrites :
    Initialised 8 ringOfEight ∧
      ∃ s, Reachable ObservesAny ringOfEight s ∧ ¬ s.delivered <+: s.accepted := by
  refine ⟨initialised_ringOfEight, ?_⟩
  obtain ⟨s, hreach, hquiet, hcaught, hpublished⟩ := exists_cycles (2 ^ 61)
  -- fills the ring
  obtain ⟨s₁, hsteps₁, hquiet₁, haccepted₁, hdelivered₁, hpublished₁, _⟩ :=
    hquiet.write ObservesAny 2 (hpublished _ le_rfl) trivial rfl
  -- overwrites what is unread
  have hstale : 8 * 1 ∈ s₁.published := by
    rw [hpublished₁]
    exact hpublished 1 (by decide)
  obtain ⟨s₂, hsteps₂, hquiet₂, haccepted₂, hdelivered₂, _, hdata₂⟩ :=
    hquiet₁.write ObservesAny 3 hstale trivial (by decide)
  obtain ⟨hheader, hbody⟩ := load_fourOf hdata₂
  obtain ⟨s₃, hsteps₃, _, hdelivered₃, haccepted₃, _⟩ :=
    hquiet₂.read ObservesAny (by decide) hheader hbody
  refine ⟨s₃, ((hreach.trans hsteps₁).trans hsteps₂).trans hsteps₃, ?_⟩
  rw [hdelivered₃, hdelivered₂, hdelivered₁, haccepted₃, haccepted₂, haccepted₁, hcaught,
    List.append_assoc]
  intro hprefix
  have hhead := (List.prefix_append_right_inj _).mp hprefix
  exact absurd hhead (by decide)

end uninterrupted

/-! ## A run of the bounded system -/

/-- On a ring of 16 bytes: a message of five bytes is written; a call that still sees the position
`0` is refused while the daemon delivers and publishes; the next one wraps around, with the daemon in
the middle of it, and is read up to its length. -/
def interleavedTurns : List Turn :=
  .beginWrite (fun _ => 7) 5 0 :: List.replicate 11 .perform ++
    [.consume, .beginWrite (fun _ => 8) 4 0, .consume, .publish, .perform] ++
    .beginWrite (fun _ => 9) 4 9 :: List.replicate 7 .perform ++
    .publish :: List.replicate 8 .perform ++ [.consume, .consume]

/-- A message, a refusal, and a message behind the wrap, both of them delivered. -/
theorem delivered_prefix_accepted_interleaved :
    ∃ s, Reachable ObservesRecent (freshRing 16) s ∧ s.rb.header.dropped = 1 ∧
      s.accepted = [[7, 7, 7, 7, 7], [9, 9, 9, 9]] ∧ s.delivered = s.accepted := by
  obtain ⟨s, hreach, hview⟩ := exists_reachable_of_run (freshRing 16)
    (interleavedTurns ++ [.consume])
    (fun s => (s.accepted, s.rb.header.dropped, s.pos, s.rb.localWritePos))
    ([[7, 7, 7, 7, 7], [9, 9, 9, 9]], 1, 24, 24) (by decide +kernel)
  simp only [Prod.mk.injEq] at hview
  obtain ⟨haccepted, hdropped, hpos, hlocal⟩ := hview
  obtain ⟨_, hall⟩ := delivered_prefix_accepted (initialised_freshRing 16) (k := 4) rfl (by decide)
    hreach
  exact ⟨s, hreach, hdropped, haccepted, hall (hpos.trans hlocal.symm)⟩

end Spsc

end LumbreExt
