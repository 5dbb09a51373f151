import LumbreExt.Lib.Channel
import LumbreExt.Ringbuf.Fifo
import LumbreExt.Ringbuf.Sequential

/-!
# The ring and its two parties are a bounded channel

The concurrent system against what it is for: it shows nothing that a bounded first-in first-out
channel cannot show.

* `Spsc.system` — the steps of the producer and the consumer with what an observer sees of them: the
  publishing store accepts a message, the refusal counter refuses one, the consumer receives one.
* `trace_refines_channel` — every trace is a trace of a channel that never holds more than the
  capacity of the ring in frames; `header->dropped` counts its refusals.
* `trace_refines_channel_reset` — the same on a ring that `lumbre_ringbuf_reset` has set back,
  whatever its data bytes are.
-/

namespace LumbreExt

open Lib

/-- Set the positions and the counter back to `0`; the data bytes stay.
Source: `lumbre_ringbuf.c`, `lumbre_ringbuf_reset` -/
def lumbreRingbufReset (rb : LumbreRingbuf) : LumbreRingbuf :=
  { rb with
    header.writePos := 0
    header.readPos := 0
    header.dropped := 0
    localWritePos := 0 }

/-- A ring of `2 ^ k` bytes before the first message; nothing is said about its data bytes. -/
structure Blank (k : ℕ) (rb : LumbreRingbuf) : Prop where
  geometry : Geometry rb k
  localWritePos : rb.localWritePos = 0
  writePos : rb.header.writePos = 0
  dropped : rb.header.dropped = 0

lemma Initialised.blank {capacity : UInt32} {rb : LumbreRingbuf} {k : ℕ}
    (h : Initialised capacity rb) (hcap : capacity.toNat = 2 ^ k) : Blank k rb := by
  have hg := h.geometry hcap
  obtain ⟨fd, path, pid, workerId, rfl⟩ := h.eq_openRing_of_toNat hcap
  exact ⟨hg, rfl, rfl, rfl⟩

lemma blank_lumbreRingbufReset {rb : LumbreRingbuf} {k : ℕ} (h : Geometry rb k) :
    Blank k (lumbreRingbufReset rb) :=
  ⟨⟨h.capacity, h.mask⟩, rfl, rfl, rfl⟩

namespace Spsc

/-- What an observer of the two parties sees. -/
abbrev Event := ChannelEvent (List UInt8)

/-- What a step between two states shows. -/
inductive Shows (s s' : Spsc) : Option Event → Prop
  | accept {msg : List UInt8} (haccepted : s'.accepted = s.accepted ++ [msg])
      (hdelivered : s'.delivered = s.delivered)
      (hdropped : s'.rb.header.dropped = s.rb.header.dropped) : Shows s s' (some (.accept msg))
  | refuse (haccepted : s'.accepted = s.accepted) (hdelivered : s'.delivered = s.delivered)
      (hdropped : s'.rb.header.dropped = s.rb.header.dropped + 1) : Shows s s' (some .refuse)
  | receive {msg : List UInt8} (haccepted : s'.accepted = s.accepted)
      (hdelivered : s'.delivered = s.delivered ++ [msg])
      (hdropped : s'.rb.header.dropped = s.rb.header.dropped) : Shows s s' (some (.receive msg))
  | nothing (haccepted : s'.accepted = s.accepted) (hdelivered : s'.delivered = s.delivered)
      (hdropped : s'.rb.header.dropped = s.rb.header.dropped) : Shows s s' none

/-- The producer and the consumer as a labelled system. -/
def system (Observes : Spsc → ℕ → Prop) : Labelled Spsc Event where
  Step s l s' := Step Observes s s' ∧ Shows s s' l

/-- The channel that holds at most `C` bytes of frames. -/
def channel (C : ℕ) : Labelled (Channel (List UInt8)) Event :=
  Channel.system (fun msg => 4 + msg.length) C

section refinement

variable {Observes : Spsc → ℕ → Prop} {rb : LumbreRingbuf} {k : ℕ} {s s' : Spsc}

lemma readHeader_fields (s : Spsc) :
    s.readHeader.rb = s.rb ∧ s.readHeader.ops = s.ops ∧ s.readHeader.accepted = s.accepted ∧
      s.readHeader.delivered = s.delivered := by
  unfold readHeader
  dsimp only
  split_ifs
  · exact ⟨rfl, rfl, rfl, rfl⟩
  · exact ⟨rfl, rfl, rfl, rfl⟩

lemma shows_perform (s : Spsc) (op : WriteOp) (rest : List WriteOp) :
    ∃ l, Shows s (s.perform op rest) l := by
  cases op with
  | fetchAddDropped => exact ⟨_, .refuse rfl rfl rfl⟩
  | storeData st => exact ⟨_, .nothing rfl rfl rfl⟩
  | addLocalWritePos n => exact ⟨_, .nothing rfl rfl rfl⟩
  | storeWritePos => exact ⟨_, .accept rfl rfl rfl⟩

/-- Labelling the steps leaves none out. -/
lemma exists_shows (hstep : Step Observes s s') : ∃ l, Shows s s' l := by
  cases hstep with
  | beginWrite payload payloadLen r _ _ _ => exact ⟨_, .nothing rfl rfl rfl⟩
  | @perform op rest _ => exact shows_perform s op rest
  | readHeader _ _ =>
      obtain ⟨hrb, _, haccepted, hdelivered⟩ := readHeader_fields s
      exact ⟨_, .nothing haccepted hdelivered (by rw [hrb])⟩
  | readRestart _ => exact ⟨_, .nothing rfl rfl rfl⟩
  | deliver _ => exact ⟨_, .receive rfl rfl rfl⟩
  | publish => exact ⟨_, .nothing rfl rfl rfl⟩

/-- The reachable states are the ends of the traces. -/
lemma reachable_iff_trace :
    Reachable Observes rb s ↔ ∃ es, (system Observes).Trace (initial rb) es s := by
  constructor
  · intro h
    induction h with
    | refl => exact ⟨[], .refl _⟩
    | tail _ hstep ih =>
        obtain ⟨es, htrace⟩ := ih
        obtain ⟨l, hshows⟩ := exists_shows hstep
        cases l with
        | none => exact ⟨es, htrace.silent ⟨hstep, hshows⟩⟩
        | some e => exact ⟨es ++ [e], htrace.visible ⟨hstep, hshows⟩⟩
  · rintro ⟨es, h⟩
    induction h with
    | refl => exact .refl
    | silent _ hstep ih => exact ih.tail hstep.1
    | visible _ hstep ih => exact ih.tail hstep.1

/-- A trace shows what the two parties record. -/
lemma trace_records {es : List Event} (h : (system Observes).Trace (initial rb) es s) :
    ChannelEvent.accepted es = s.accepted ∧ ChannelEvent.received es = s.delivered := by
  induction h with
  | refl => exact ⟨rfl, rfl⟩
  | silent _ hstep ih =>
      cases hstep.2 with
      | nothing haccepted hdelivered _ => rwa [haccepted, hdelivered]
  | visible _ hstep ih =>
      rw [ChannelEvent.accepted_append, ChannelEvent.received_append, ih.1, ih.2]
      cases hstep.2 with
      | accept haccepted hdelivered _ =>
          rw [haccepted, hdelivered]
          exact ⟨rfl, List.append_nil _⟩
      | refuse haccepted hdelivered _ =>
          rw [haccepted, hdelivered]
          exact ⟨List.append_nil _, List.append_nil _⟩
      | receive haccepted hdelivered _ =>
          rw [haccepted, hdelivered]
          exact ⟨List.append_nil _, rfl⟩

/-! ## Safety: nothing but a channel's behaviour -/

/-- A state of the system and the channel it implements. -/
structure Implements (k : ℕ) (s : Spsc) (c : Channel (List UInt8)) : Prop where
  inv : Inv k s
  queue : s.accepted = s.delivered ++ c.queue
  refused : s.rb.header.dropped = UInt64.ofNat c.refused

/-- The frames in between fit into the ring. -/
lemma Implements.weight_le {c : Channel (List UInt8)} (h : Implements k s c) :
    (c.queue.map fun msg => 4 + msg.length).sum ≤ 2 ^ k := by
  obtain ⟨pending, haccepted, hconsumer⟩ := h.inv.pending
  have hpending : pending = c.queue := List.append_cancel_left (haccepted.symm.trans h.queue)
  have hsum := hconsumer.frames.sum_le
  have hroom := h.inv.announced_le
  rw [hpending, ringFormat_width] at hsum
  omega

lemma simulates_channel (hk : 2 ≤ k) :
    Labelled.Simulates (system ObservesRecent) (channel (2 ^ k)) (Implements k) where
  silent := by
    rintro s s' c h ⟨hstep, hshows⟩
    cases hshows with
    | nothing haccepted hdelivered hdropped =>
        exact ⟨c, .refl c, h.inv.step hk hstep, by rw [haccepted, hdelivered, h.queue],
          hdropped.trans h.refused⟩
  visible := by
    rintro s s' c e h ⟨hstep, hshows⟩
    have hinv := h.inv.step hk hstep
    cases hshows with
    | @accept msg haccepted hdelivered hdropped =>
        have himplements : Implements k s' { c with queue := c.queue ++ [msg] } :=
          ⟨hinv, by rw [haccepted, hdelivered, h.queue, List.append_assoc],
            hdropped.trans h.refused⟩
        exact ⟨_, .of_visible (.accept msg himplements.weight_le), himplements⟩
    | refuse haccepted hdelivered hdropped =>
        refine ⟨_, .of_visible .refuse, hinv, by rw [haccepted, hdelivered, h.queue], ?_⟩
        rw [hdropped, h.refused]
        exact counter_add c.refused 1
    | @receive msg haccepted hdelivered hdropped =>
        obtain ⟨pending, hpending, _⟩ := hinv.pending
        -- what is received is what the channel holds at its head
        have hqueue : c.queue = msg :: pending := by
          have heq : s.delivered ++ c.queue = s.delivered ++ msg :: pending := by
            rw [← h.queue, ← haccepted, hpending, hdelivered, List.append_assoc]
            rfl
          exact List.append_cancel_left heq
        exact ⟨_, .of_visible (.receive hqueue), hinv, hpending, hdropped.trans h.refused⟩

lemma inv_of_blank (h : Blank k rb) : Inv k (initial rb) :=
  { geometry := h.geometry
    localWritePos_eq := h.localWritePos
    writePos_eq := h.writePos
    pos_eq := rfl
    published_le := fun r hr => by simpa [initial] using hr
    announced_le := Nat.zero_le _
    producer := Or.inl ⟨Or.inl rfl, rfl⟩
    pending := ⟨[], rfl, Frames.nil 0⟩ }

lemma trace_refines_channel_of_blank (h : Blank k rb) (hk : 2 ≤ k) {es : List Event}
    (htrace : (system ObservesRecent).Trace (initial rb) es s) :
    ChannelEvent.accepted es = s.accepted ∧ ChannelEvent.received es = s.delivered ∧
      ∃ c, (channel (2 ^ k)).Trace .empty es c ∧ s.accepted = s.delivered ++ c.queue ∧
        s.rb.header.dropped = UInt64.ofNat c.refused := by
  have hstart : Implements k (initial rb) .empty := ⟨inv_of_blank h, rfl, h.dropped⟩
  obtain ⟨haccepted, hreceived⟩ := trace_records htrace
  obtain ⟨c, htrace', himplements⟩ := (simulates_channel hk).trace hstart htrace
  obtain ⟨hfifo, _⟩ := Channel.trace_accepted_eq htrace'
  rw [haccepted, hreceived] at hfifo
  exact ⟨haccepted, hreceived, c, htrace', hfifo, himplements.refused⟩

/-- **The ring refines a bounded channel.** On a fresh ring of `2 ^ k ≥ 4` bytes, in every
interleaving in which each call sees a position published less than `2 ^ 64 - capacity` bytes ago:
what the two parties show, a first-in first-out channel shows that holds at most `2 ^ k` bytes of
frames; what lies in it is what is accepted and not yet delivered, and `header->dropped` is the
number of its refusals, modulo `2 ^ 64`. Every reachable state is the end of such a trace. -/
theorem trace_refines_channel {capacity : UInt32} (hinit : Initialised capacity rb)
    (hcap : capacity.toNat = 2 ^ k) (hk : 2 ≤ k) :
    (Reachable ObservesRecent rb s ↔ ∃ es, (system ObservesRecent).Trace (initial rb) es s) ∧
      ∀ es, (system ObservesRecent).Trace (initial rb) es s →
        ChannelEvent.accepted es = s.accepted ∧ ChannelEvent.received es = s.delivered ∧
          ∃ c, (channel (2 ^ k)).Trace .empty es c ∧ s.accepted = s.delivered ++ c.queue ∧
            s.rb.header.dropped = UInt64.ofNat c.refused := by
  refine ⟨reachable_iff_trace, ?_⟩
  intro es htrace
  exact trace_refines_channel_of_blank (hinit.blank hcap) hk htrace

/-- A message received, a refusal, and a message that lies in the channel. -/
theorem trace_refines_channel_interleaved :
    ∃ s es c, (system ObservesRecent).Trace (initial (freshRing 16)) es s ∧
      ChannelEvent.accepted es = [[7, 7, 7, 7, 7], [9, 9, 9, 9]] ∧
      ChannelEvent.received es = [[7, 7, 7, 7, 7]] ∧ (channel 16).Trace .empty es c ∧
      c.queue = [[9, 9, 9, 9]] ∧ UInt64.ofNat c.refused = 1 := by
  obtain ⟨s, hreach, hview⟩ := exists_reachable_of_run (freshRing 16) interleavedTurns
    (fun s => (s.accepted, s.delivered, s.rb.header.dropped))
    ([[7, 7, 7, 7, 7], [9, 9, 9, 9]], [[7, 7, 7, 7, 7]], 1) (by decide +kernel)
  simp only [Prod.mk.injEq] at hview
  obtain ⟨haccepted, hdelivered, hdropped⟩ := hview
  obtain ⟨hreaches, hall⟩ :=
    trace_refines_channel (s := s) (initialised_freshRing 16) (k := 4) rfl (by decide)
  obtain ⟨es, htrace⟩ := hreaches.mp hreach
  obtain ⟨hes, hreceived, c, hchannel, hqueue, hrefused⟩ := hall es htrace
  rw [haccepted, hdelivered] at hqueue
  exact ⟨s, es, c, htrace, hes.trans haccepted, hreceived.trans hdelivered, hchannel,
    (List.cons.inj hqueue).2.symm, hrefused.symm.trans hdropped⟩

/-- **A ring set back is a bounded channel again.** The same on a ring of `2 ^ k ≥ 4` bytes that
`lumbre_ringbuf_reset` has set back, with the consumer restarted at position `0`: what earlier
messages left in the data bytes is never delivered. -/
theorem trace_refines_channel_reset (hg : Geometry rb k) (hk : 2 ≤ k) {es : List Event}
    (htrace : (system ObservesRecent).Trace (initial (lumbreRingbufReset rb)) es s) :
    ChannelEvent.accepted es = s.accepted ∧ ChannelEvent.received es = s.delivered ∧
      ∃ c, (channel (2 ^ k)).Trace .empty es c ∧ s.accepted = s.delivered ++ c.queue ∧
        s.rb.header.dropped = UInt64.ofNat c.refused :=
  trace_refines_channel_of_blank (blank_lumbreRingbufReset hg) hk htrace

/-- A ring with an unread message in it and a refusal counted, set back; then a message that is
received. -/
theorem trace_refines_channel_reset_used :
    ∃ s es c, (system ObservesRecent).Trace (initial
        (lumbreRingbufReset (lumbreRingbufWrite ringWithMessage (fun _ => 1) 4).2)) es s ∧
      ChannelEvent.accepted es = [fourOf 9] ∧ ChannelEvent.received es = [fourOf 9] ∧
      (channel 8).Trace .empty es c ∧ c.queue = [] ∧ UInt64.ofNat c.refused = 0 := by
  have hgeometry : Geometry (lumbreRingbufWrite ringWithMessage (fun _ => 1) 4).2 3 := ⟨rfl, rfl⟩
  obtain ⟨s, hreach, hview⟩ := exists_reachable_of_run
    (lumbreRingbufReset (lumbreRingbufWrite ringWithMessage (fun _ => 1) 4).2)
    (.beginWrite (fun _ => 9) 4 0 :: List.replicate 10 .perform ++ [.consume, .consume])
    (fun s => (s.accepted, s.delivered, s.rb.header.dropped)) ([fourOf 9], [fourOf 9], 0)
    (by decide +kernel)
  simp only [Prod.mk.injEq] at hview
  obtain ⟨haccepted, hdelivered, hdropped⟩ := hview
  obtain ⟨es, htrace⟩ := reachable_iff_trace.mp hreach
  obtain ⟨hes, hreceived, c, hchannel, hqueue, hrefused⟩ :=
    trace_refines_channel_reset hgeometry (by decide) htrace
  rw [haccepted, hdelivered] at hqueue
  exact ⟨s, es, c, htrace, hes.trans haccepted, hreceived.trans hdelivered, hchannel,
    (List.cons.inj hqueue).2.symm, hrefused.symm.trans hdropped⟩

end refinement

end Spsc

end LumbreExt
