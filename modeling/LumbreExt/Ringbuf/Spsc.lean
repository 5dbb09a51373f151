import LumbreExt.Lib.Machine
import LumbreExt.Ringbuf.Write
import Mathlib.Logic.Relation

/-!
# The producer and the consumer of one ring

The concurrent system of one worker and the daemon. The producer runs `lumbre_ringbuf_write` calls,
one memory access at a time (`WriteOp`, a `memcpy` byte by byte); the consumer runs the read loop of
`test_spsc_simulation`; any step of one may fall between two steps of the other.

* The call's relaxed load of `header->read_pos` may see any value published so far. Which one is a
  parameter of the step relation: `ObservesAny` allows all of them, `ObservesRecent` those that lie
  less than `2 ^ 64` bytes, less a capacity, behind the write position.
* `header->write_pos` is loaded with acquire by the consumer, which sees the latest store.
* `written`, `announced` and `consumed` are the unbounded counts behind the 64-bit
  `local_write_pos`, `header->write_pos` and the consumer's position; `published` holds the counts
  behind the values stored to `header->read_pos`. No step depends on them, except that an observed
  value is named by its count. They are there for the invariant to speak about.

A payload counts as accepted when the call performs its publishing store, after which it returns
`0`.

`Spsc.schedule` takes the steps as a program, turn by turn; it reaches the states of the relation and
no others (`Spsc.reachable_schedule_iff`).
-/

namespace LumbreExt

open Lib

/-- Where the consumer stands in its loop. -/
inductive ConsumerPc
  /-- At the loop test. -/
  | loop
  /-- Behind a padding marker: the position is advanced, the length at offset `0` is next. -/
  | restart
  /-- The length is read; the payload behind it is next. -/
  | gotLen (offset len : UInt32)

/-- The state of the system. -/
structure Spsc where
  /-- The ring: the shared mapping and the producer's handle. -/
  rb : LumbreRingbuf
  /-- What the call in progress still has to do; empty between calls. -/
  ops : List WriteOp
  /-- The payload of the call in progress. -/
  message : List UInt8
  /-- The payloads of the calls that returned `0`. -/
  accepted : List (List UInt8)
  /-- The consumer's position (`daemon_read_pos`). -/
  pos : UInt64
  pc : ConsumerPc
  /-- The payloads the consumer has delivered. -/
  delivered : List (List UInt8)
  written : ℕ
  announced : ℕ
  consumed : ℕ
  published : List ℕ

/-- A `memcpy` of a `uint32_t` out of the ring. -/
def load32 (m : Mem) (offset : UInt32) : UInt32 :=
  UInt32.ofNat (ofLeBytes (m.load offset.toNat 4))

/-- How far an access advances `local_write_pos`. -/
def WriteOp.advance : WriteOp → ℕ
  | .addLocalWritePos n => n.toNat
  | _ => 0

namespace Spsc

/-- The system on a fresh ring: nothing written, the consumer at position `0`, which is also what
`header->read_pos` holds. -/
def initial (rb : LumbreRingbuf) : Spsc where
  rb := rb
  ops := []
  message := []
  accepted := []
  pos := 0
  pc := .loop
  delivered := []
  written := 0
  announced := 0
  consumed := 0
  published := [0]

/-! ## The producer -/

/-- A call starts: it has loaded `header->read_pos`, seen count `r`, and decided. -/
def beginWrite (s : Spsc) (payload : Mem) (payloadLen : UInt32) (r : ℕ) : Spsc :=
  { s with
    ops := (lumbreRingbufWriteOps s.rb (UInt64.ofNat r) payload payloadLen).2
    message := payload.load 0 payloadLen.toNat }

/-- The call in progress performs its next access; `rest` remains. -/
def perform (s : Spsc) (op : WriteOp) (rest : List WriteOp) : Spsc :=
  { s with
    rb := s.rb.exec op
    ops := rest
    written := s.written + op.advance
    announced := if op = .storeWritePos then s.written else s.announced
    accepted := if op = .storeWritePos then s.accepted ++ [s.message] else s.accepted }

/-! ## The consumer -/

/-- `offset = pos & mask; memcpy(&len, &data[offset], 4)`, and the test for the marker.
Source: `tests/test_ringbuf.c`, `test_spsc_simulation` -/
def readHeader (s : Spsc) : Spsc :=
  let offset := (s.pos &&& s.rb.mask.toUInt64).toUInt32
  let len := load32 s.rb.data offset
  if len = lumbreRingbufPaddingMarker then
    let pad := s.rb.capacity - offset
    { s with pos := s.pos + pad.toUInt64, consumed := s.consumed + pad.toNat, pc := .restart }
  else { s with pc := .gotLen offset len }

/-- `offset = 0; memcpy(&len, &data[0], 4)`. -/
def readRestart (s : Spsc) : Spsc :=
  { s with pc := .gotLen 0 (load32 s.rb.data 0) }

/-- Deliver the payload at `data[offset + 4]` and advance by `4 + len`. -/
def deliver (s : Spsc) (offset len : UInt32) : Spsc :=
  { s with
    delivered := s.delivered ++ [s.rb.data.load (offset + 4).toNat len.toNat]
    pos := s.pos + (4 + len).toUInt64
    consumed := s.consumed + (4 + len).toNat
    pc := .loop }

/-- Store the position to `header->read_pos`. -/
def publish (s : Spsc) : Spsc :=
  { s with
    rb := { s.rb with header.readPos := s.pos }
    published := s.published ++ [s.consumed] }

/-! ## Steps and runs -/

/-- One step of either party; `Observes s r` says whether a call starting in `s` may see the
published count `r`. -/
inductive Step (Observes : Spsc → ℕ → Prop) : Spsc → Spsc → Prop
  | beginWrite {s : Spsc} (payload : Mem) (payloadLen : UInt32) (r : ℕ) (hidle : s.ops = [])
      (hr : r ∈ s.published) (hobs : Observes s r) :
      Step Observes s (s.beginWrite payload payloadLen r)
  | perform {s : Spsc} {op : WriteOp} {rest : List WriteOp} (hops : s.ops = op :: rest) :
      Step Observes s (s.perform op rest)
  | readHeader {s : Spsc} (hpc : s.pc = .loop) (hpos : s.pos ≠ s.rb.header.writePos) :
      Step Observes s s.readHeader
  | readRestart {s : Spsc} (hpc : s.pc = .restart) : Step Observes s s.readRestart
  | deliver {s : Spsc} {offset len : UInt32} (hpc : s.pc = .gotLen offset len) :
      Step Observes s (s.deliver offset len)
  | publish {s : Spsc} : Step Observes s s.publish

/-- Every value published so far may be observed. -/
def ObservesAny (_ : Spsc) (_ : ℕ) : Prop := True

/-- A value may be observed while the write position is less than `2 ^ 64 - capacity` ahead of it. -/
def ObservesRecent (s : Spsc) (r : ℕ) : Prop :=
  s.written - r + s.rb.capacity.toNat < 2 ^ 64

/-- The states of the runs on a fresh ring. -/
def Reachable (Observes : Spsc → ℕ → Prop) (rb : LumbreRingbuf) : Spsc → Prop :=
  Relation.ReflTransGen (Step Observes) (initial rb)

/-! ## The steps as a program -/

/-- Whose turn it is. A call comes with its arguments and the count of the position it sees. -/
inductive Turn
  | beginWrite (payload : Mem) (payloadLen : UInt32) (r : ℕ)
  | perform
  | consume
  | publish

instance (s : Spsc) (r : ℕ) : Decidable (ObservesRecent s r) :=
  inferInstanceAs (Decidable (_ < _))

/-- What a party does in its turn, `none` when it cannot move. -/
def take (s : Spsc) : Turn → Option Spsc
  | .beginWrite payload payloadLen r =>
      if s.ops = [] ∧ r ∈ s.published ∧ ObservesRecent s r then
        some (s.beginWrite payload payloadLen r)
      else none
  | .perform =>
      match s.ops with
      | [] => none
      | op :: rest => some (s.perform op rest)
  | .consume =>
      match s.pc with
      | .loop => if s.pos ≠ s.rb.header.writePos then some s.readHeader else none
      | .restart => some s.readRestart
      | .gotLen offset len => some (s.deliver offset len)
  | .publish => some s.publish

/-- The two parties on one ring. -/
def schedule (rb : LumbreRingbuf) : Machine Spsc Turn where
  Start s := s = initial rb
  step := take

section schedule

variable {s s' : Spsc} {rb : LumbreRingbuf}

lemma step_of_take {t : Turn} (h : s.take t = some s') : Step ObservesRecent s s' := by
  cases t with
  | beginWrite payload payloadLen r =>
      simp only [take] at h
      split_ifs at h with hcan
      obtain rfl := Option.some_inj.mp h
      exact .beginWrite payload payloadLen r hcan.1 hcan.2.1 hcan.2.2
  | perform =>
      cases hops : s.ops with
      | nil =>
          simp only [take, hops] at h
          exact absurd h.symm (Option.some_ne_none s')
      | cons op rest =>
          simp only [take, hops, Option.some_inj] at h
          exact h ▸ .perform hops
  | consume =>
      cases hpc : s.pc with
      | loop =>
          simp only [take, hpc] at h
          split_ifs at h with hpos
          exact Option.some_inj.mp h ▸ .readHeader hpc hpos
      | restart =>
          simp only [take, hpc, Option.some_inj] at h
          exact h ▸ .readRestart hpc
      | gotLen offset len =>
          simp only [take, hpc, Option.some_inj] at h
          exact h ▸ .deliver hpc
  | publish => exact Option.some_inj.mp h ▸ .publish

/-- **Every step is somebody's turn**, and nothing else is. -/
theorem step_iff_exists_turn : Step ObservesRecent s s' ↔ ∃ t, s.take t = some s' := by
  constructor
  · intro h
    cases h with
    | beginWrite payload payloadLen r hidle hr hobs =>
        exact ⟨.beginWrite payload payloadLen r, if_pos ⟨hidle, hr, hobs⟩⟩
    | perform hops => exact ⟨.perform, by simp only [take, hops]⟩
    | readHeader hpc hpos => exact ⟨.consume, by simp only [take, hpc, if_pos hpos]⟩
    | readRestart hpc => exact ⟨.consume, by simp only [take, hpc]⟩
    | deliver hpc => exact ⟨.consume, by simp only [take, hpc]⟩
    | publish => exact ⟨.publish, rfl⟩
  · rintro ⟨t, h⟩
    exact step_of_take h

/-- The program reaches the states of the relation. -/
theorem reachable_schedule_iff : (schedule rb).Reachable s ↔ Reachable ObservesRecent rb s := by
  constructor
  · intro h
    induction h with
    | start h => exact h ▸ .refl
    | step _ hstep ih => exact ih.tail (step_of_take hstep)
  · intro h
    induction h with
    | refl => exact .start rfl
    | tail _ hstep ih =>
        obtain ⟨t, ht⟩ := step_iff_exists_turn.mp hstep
        exact ih.step ht

/-- The end of a run of the program. -/
lemma reachable_of_run {turns : List Turn}
    (h : (schedule rb).run (initial rb) turns = some s) : Reachable ObservesRecent rb s :=
  reachable_schedule_iff.mp (Machine.Reachable.run (.start rfl) h)

/-- What is seen of the end of a run of the program is seen of a reachable state. -/
lemma exists_reachable_of_run {τ : Type*} (rb : LumbreRingbuf) (turns : List Turn) (view : Spsc → τ)
    (v : τ) (h : ((schedule rb).run (initial rb) turns).map view = some v) :
    ∃ s, Reachable ObservesRecent rb s ∧ view s = v := by
  obtain ⟨s, hrun, hview⟩ := Option.map_eq_some_iff.mp h
  exact ⟨s, reachable_of_run hrun, hview⟩

end schedule

end Spsc

end LumbreExt
