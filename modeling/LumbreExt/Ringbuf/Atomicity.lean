import LumbreExt.Lib.Reduction
import LumbreExt.Ringbuf.Liveness

/-!
# A write is atomic to the consumer

`lumbre_ringbuf_write` copies a message byte by byte while the consumer reads the same mapping. No
interleaving of the two leads anywhere that calls without interruption do not lead.

* `ProducerStep`, `DaemonStep` — the steps of the concurrent system by the party that takes them.
* `Spsc.write`, `AtomicStep` — a call as `lumbreRingbufWrite` runs it, from its load of
  `header->read_pos` to its return, and the system in which every call is one such step.
* `Inv.reads_eq` — what the consumer reads next does not depend on what a call in progress has
  stored.
* `DaemonStep.move` — a step of the consumer can be taken in front of an access that does not publish.
* `write_atomic` — the states between calls are those of the system with atomic calls.
-/

namespace LumbreExt

open Lib

/-! ## The accesses of a call -/

/-- A call does not depend on the header. -/
lemma lumbreRingbufWriteOps_congr {rb rb' : LumbreRingbuf}
    (h : rb.withReadPos 0 = rb'.withReadPos 0) (readPos : UInt64) (payload : Mem)
    (payloadLen : UInt32) :
    lumbreRingbufWriteOps rb readPos payload payloadLen =
      lumbreRingbufWriteOps rb' readPos payload payloadLen :=
  show lumbreRingbufWriteOps (rb.withReadPos 0) readPos payload payloadLen =
    lumbreRingbufWriteOps (rb'.withReadPos 0) readPos payload payloadLen by rw [h]

lemma LumbreRingbuf.execAll_withReadPos (rb : LumbreRingbuf) (ops : List WriteOp)
    (readPos : UInt64) :
    (rb.execAll ops).withReadPos readPos = (rb.withReadPos readPos).execAll ops := by
  induction ops generalizing rb with
  | nil => rfl
  | cons op ops ih =>
      have hop : (rb.withReadPos readPos).exec op = (rb.exec op).withReadPos readPos := by
        cases op <;> rfl
      change ((rb.exec op).execAll ops).withReadPos readPos =
        ((rb.withReadPos readPos).exec op).execAll ops
      rw [ih, hop]

/-- A call counts a refusal, or works on its own until it publishes. -/
lemma lumbreRingbufWriteOps_shape {rb : LumbreRingbuf} {k : ℕ} (hg : Geometry rb k) (hk : 2 ≤ k)
    (readPos : UInt64) (payload : Mem) (payloadLen : UInt32) :
    lumbreRingbufWriteOps rb readPos payload payloadLen = (-1, [.fetchAddDropped]) ∨
      ∃ todo, lumbreRingbufWriteOps rb readPos payload payloadLen =
          (0, todo ++ [.storeWritePos]) ∧ (∀ op ∈ todo, op.IsLocal) ∧
        pendingAdvance todo < 2 ^ 64 := by
  have hcapLe := hg.capacity_le
  have hlength : (payload.load 0 payloadLen.toNat).length = payloadLen.toNat :=
    Mem.load_length payload 0 payloadLen.toNat
  rcases lumbreRingbufWriteOps_cases hg hk readPos payload payloadLen with
    ⟨_, hops⟩ | ⟨⟨hfit, _⟩, hops⟩ | ⟨⟨hfit, _⟩, hops⟩
  · exact Or.inl hops
  · refine Or.inr ⟨_, hops.trans (by rw [frameOps_eq]), ?_, ?_⟩
    · exact fun op hop => isLocal_of_mem_frameLocalOps hop
    · rw [pendingAdvance_frameLocalOps (by omega)]
      omega
  · refine Or.inr ⟨_, hops.trans (by rw [frameOps_eq, ← List.append_assoc]), ?_, ?_⟩
    · intro op hop
      rcases List.mem_append.mp hop with hpad | hframe
      · exact isLocal_of_mem_padOps hpad
      · exact isLocal_of_mem_frameLocalOps hframe
    · rw [pendingAdvance_append, pendingAdvance_padOps (by omega),
        pendingAdvance_frameLocalOps (by omega)]
      omega

/-- A call publishes its message exactly when it returns `0`. -/
lemma lumbreRingbufWriteOps_publishes {rb : LumbreRingbuf} {k : ℕ} (hg : Geometry rb k)
    (hk : 2 ≤ k) (readPos : UInt64) (payload : Mem) (payloadLen : UInt32) :
    .storeWritePos ∈ (lumbreRingbufWriteOps rb readPos payload payloadLen).2 ↔
      (lumbreRingbufWriteOps rb readPos payload payloadLen).1 = 0 := by
  rcases lumbreRingbufWriteOps_shape hg hk readPos payload payloadLen with hops | ⟨_, hops, _, _⟩
  · rw [hops]
    exact iff_of_false (by simp) (show (-1 : ℤ) ≠ 0 by decide)
  · rw [hops]
    exact iff_of_true (by simp) rfl

namespace Spsc

/-! ## The two parties -/

/-- A step of the producer. -/
inductive ProducerStep (Observes : Spsc → ℕ → Prop) : Spsc → Spsc → Prop
  | beginWrite {s : Spsc} (payload : Mem) (payloadLen : UInt32) (r : ℕ) (hidle : s.ops = [])
      (hr : r ∈ s.published) (hobs : Observes s r) :
      ProducerStep Observes s (s.beginWrite payload payloadLen r)
  | perform {s : Spsc} {op : WriteOp} {rest : List WriteOp} (hops : s.ops = op :: rest) :
      ProducerStep Observes s (s.perform op rest)

/-- A step of the consumer. -/
inductive DaemonStep : Spsc → Spsc → Prop
  | loop {s s' : Spsc} (h : ConsumerStep s s') : DaemonStep s s'
  | publish {s : Spsc} : DaemonStep s s.publish

/-- A call without interruption, which finds the published count `r` in `header->read_pos`. -/
def write (s : Spsc) (payload : Mem) (payloadLen : UInt32) (r : ℕ) : Spsc :=
  let w := lumbreRingbufWrite (s.rb.withReadPos (UInt64.ofNat r)) payload payloadLen
  let message := payload.load 0 payloadLen.toNat
  let written := s.written + (w.2.localWritePos - s.rb.localWritePos).toNat
  { s with
    rb := w.2.withReadPos s.rb.header.readPos
    message := message
    accepted := if w.1 = 0 then s.accepted ++ [message] else s.accepted
    written := written
    announced := if w.1 = 0 then written else s.announced }

/-- A step of the system in which calls are not interrupted. -/
inductive AtomicStep (Observes : Spsc → ℕ → Prop) : Spsc → Spsc → Prop
  | write {s : Spsc} (payload : Mem) (payloadLen : UInt32) (r : ℕ) (hidle : s.ops = [])
      (hr : r ∈ s.published) (hobs : Observes s r) :
      AtomicStep Observes s (s.write payload payloadLen r)
  | daemon {s s' : Spsc} (hidle : s.ops = []) (h : DaemonStep s s') : AtomicStep Observes s s'

/-- The states of its runs on a fresh ring. -/
def AtomicReachable (Observes : Spsc → ℕ → Prop) (rb : LumbreRingbuf) : Spsc → Prop :=
  Relation.ReflTransGen (AtomicStep Observes) (initial rb)

variable {Observes : Spsc → ℕ → Prop} {k : ℕ} {s s' t : Spsc} {rb : LumbreRingbuf}

lemma DaemonStep.step (h : DaemonStep s s') : Step Observes s s' := by
  cases h with
  | loop h => exact h.step
  | publish => exact .publish

lemma ProducerStep.step (h : ProducerStep Observes s s') : Step Observes s s' := by
  cases h with
  | beginWrite payload payloadLen r hidle hr hobs =>
      exact .beginWrite payload payloadLen r hidle hr hobs
  | perform hops => exact .perform hops

lemma step_cases (h : Step Observes s s') : ProducerStep Observes s s' ∨ DaemonStep s s' := by
  cases h with
  | beginWrite payload payloadLen r hidle hr hobs =>
      exact Or.inl (.beginWrite payload payloadLen r hidle hr hobs)
  | perform hops => exact Or.inl (.perform hops)
  | readHeader hpc hpos => exact Or.inr (.loop (.readHeader hpc hpos))
  | readRestart hpc => exact Or.inr (.loop (.readRestart hpc))
  | deliver hpc => exact Or.inr (.loop (.deliver hpc))
  | publish => exact Or.inr .publish

/-- A step of the consumer's loop leaves the producer's side as it is. -/
lemma ConsumerStep.producer_eq (h : ConsumerStep s s') :
    s'.rb = s.rb ∧ s'.ops = s.ops ∧ s'.message = s.message ∧ s'.accepted = s.accepted := by
  cases h with
  | readHeader _ _ =>
      obtain ⟨hrb, hops, haccepted, _⟩ := readHeader_fields s
      refine ⟨hrb, hops, ?_, haccepted⟩
      unfold Spsc.readHeader
      dsimp only
      split_ifs <;> rfl
  | readRestart _ => exact ⟨rfl, rfl, rfl, rfl⟩
  | deliver _ => exact ⟨rfl, rfl, rfl, rfl⟩

/-! ## The consumer's steps move to the front -/

/-- The state with other data behind the announced position, and the producer elsewhere. -/
def work (s : Spsc) (data : Mem) (localWritePos : UInt64) (ops : List WriteOp)
    (message : List UInt8) (written : ℕ) : Spsc :=
  { s with
    rb.data := data
    rb.localWritePos := localWritePos
    ops := ops
    message := message
    written := written }

/-- What the consumer would read next does not depend on the bytes outside the unread region. -/
structure ReadsSame (s : Spsc) (data : Mem) : Prop where
  header : s.pc = .loop → s.pos ≠ s.rb.header.writePos →
    load32 data (s.pos &&& s.rb.mask.toUInt64).toUInt32 =
      load32 s.rb.data (s.pos &&& s.rb.mask.toUInt64).toUInt32
  restart : s.pc = .restart → load32 data 0 = load32 s.rb.data 0
  payload : ∀ offset len, s.pc = .gotLen offset len →
    data.load (offset + 4).toNat len.toNat = s.rb.data.load (offset + 4).toNat len.toNat

lemma Inv.reads_eq (h : Inv k s) {data : Mem}
    (hagree : Frames.Agree ringFormat s.rb.data data (2 ^ k) s.consumed s.announced) :
    s.ReadsSame data := by
  have hcapLe := h.geometry.capacity_le
  obtain ⟨pending, _, hconsumer⟩ := h.pending
  refine ⟨?_, ?_, ?_⟩
  · intro _ hne
    have hframes := hconsumer.frames
    have hunread : s.consumed ≠ s.announced := by
      intro heq
      apply hne
      rw [h.pos_eq, h.writePos_eq, heq]
    obtain ⟨msg, msgs, rfl⟩ := List.exists_cons_of_ne_nil (hframes.ne_nil_of_ne hunread)
    rcases hframes.headFrame_or_pad with hhead | ⟨_, hmark, hrest⟩
    · have hq := hhead.rest.le
      have hfit := hhead.fit
      rw [ringFormat_width] at hq hfit
      have hload := hagree.load_eq (j := 0) (n := 4) (by omega) (by omega)
      rw [load32, load32, h.toNat_offset]
      exact congrArg (fun bs => UInt32.ofNat (ofLeBytes bs)) hload
    · have hload := hagree.load_marker hmark hrest.le
      rw [load32_of_marker (by rw [h.toNat_offset]; exact hload),
        load32_of_marker (by rw [h.toNat_offset]; exact hmark)]
  · intro hpc
    unfold ConsumerAt at hconsumer
    rw [hpc] at hconsumer
    obtain ⟨hframes, hzero, hnonempty⟩ := hconsumer
    obtain ⟨msg, msgs, rfl⟩ := List.exists_cons_of_ne_nil hnonempty
    have hhead := Frames.headFrame_of_offset_zero hframes hzero
    have hq := hhead.rest.le
    have hfit := hhead.fit
    rw [ringFormat_width] at hq hfit
    have hload := hagree.load_eq (j := 0) (n := 4) (by omega) (by omega)
    rw [hzero] at hload
    exact congrArg (fun bs => UInt32.ofNat (ofLeBytes bs)) hload
  · intro offset len hpc
    unfold ConsumerAt at hconsumer
    rw [hpc] at hconsumer
    obtain ⟨msg, msgs, rfl, hoff, hlen, hhead⟩ := hconsumer
    have hq := hhead.rest.le
    have hfit := hhead.fit
    rw [ringFormat_width] at hq hfit
    have hfour : (offset + 4).toNat = s.consumed % 2 ^ k + 4 := by
      rw [UInt32.toNat_add, hoff, show (4 : UInt32).toNat = 4 from rfl]
      omega
    rw [hfour, hlen]
    exact hagree.load_eq (by omega) (by omega)

/-- What a step of the consumer leaves as it is. -/
structure SameProducer (s s' : Spsc) : Prop where
  ring : s'.rb.withReadPos 0 = s.rb.withReadPos 0
  ops : s'.ops = s.ops
  message : s'.message = s.message
  written : s'.written = s.written
  published : ∀ r ∈ s.published, r ∈ s'.published

lemma SameProducer.fields (h : SameProducer s s') :
    s'.rb.data = s.rb.data ∧ s'.rb.localWritePos = s.rb.localWritePos ∧
      s'.rb.capacity = s.rb.capacity := by
  have hdata := congrArg LumbreRingbuf.data h.ring
  have hlocal := congrArg LumbreRingbuf.localWritePos h.ring
  have hcapacity := congrArg LumbreRingbuf.capacity h.ring
  exact ⟨hdata, hlocal, hcapacity⟩

/-- **A step of the consumer does not notice the producer's work.** -/
lemma DaemonStep.move {data : Mem} {localWritePos : UInt64} {ops : List WriteOp}
    {message : List UInt8} {written : ℕ} (hreads : s.ReadsSame data)
    (h : DaemonStep (s.work data localWritePos ops message written) t) :
    ∃ s', DaemonStep s s' ∧ SameProducer s s' ∧
      t = s'.work data localWritePos ops message written := by
  cases h with
  | publish =>
      exact ⟨s.publish, .publish, ⟨rfl, rfl, rfl, rfl, fun r hr => List.mem_append_left _ hr⟩, rfl⟩
  | loop h =>
      cases h with
      | readHeader hpc hpos =>
          have hword := hreads.header hpc hpos
          have hsame : SameProducer s s.readHeader := by
            unfold Spsc.readHeader
            dsimp only
            split_ifs <;> exact ⟨rfl, rfl, rfl, rfl, fun r hr => hr⟩
          refine ⟨s.readHeader, .loop (.readHeader hpc hpos), hsame, ?_⟩
          unfold Spsc.readHeader work
          dsimp only
          rw [hword]
          split_ifs <;> rfl
      | readRestart hpc =>
          refine ⟨s.readRestart, .loop (.readRestart hpc), ⟨rfl, rfl, rfl, rfl, fun r hr => hr⟩, ?_⟩
          unfold Spsc.readRestart work
          dsimp only
          rw [hreads.restart hpc]
      | @deliver offset len hpc =>
          refine ⟨s.deliver offset len, .loop (.deliver hpc),
            ⟨rfl, rfl, rfl, rfl, fun r hr => hr⟩, ?_⟩
          unfold Spsc.deliver work
          dsimp only
          rw [hreads.payload offset len hpc]

/-- The next access of a call: the last one counts a refusal or publishes; the others store outside
the unread region or advance `local_write_pos`. -/
lemma Inv.perform_cases (h : Inv k s) {op : WriteOp} {rest : List WriteOp}
    (hops : s.ops = op :: rest) :
    ((op = .fetchAddDropped ∨ op = .storeWritePos) ∧ rest = []) ∨
      (∃ st, op = .storeData st ∧ SafeStore (2 ^ k) s.consumed s.announced st) ∨
      ∃ n, op = .addLocalWritePos n := by
  rcases h.producer with ⟨hidle | hrefusing, _⟩ | ⟨todo, htodo, hlocal, hsafe, _⟩
  · rw [hidle] at hops
    exact absurd hops (List.cons_ne_nil _ _).symm
  · rw [hrefusing] at hops
    obtain ⟨rfl, rfl⟩ := List.cons.inj hops
    exact Or.inl ⟨Or.inl rfl, rfl⟩
  · rw [htodo] at hops
    cases todo with
    | nil =>
        obtain ⟨rfl, rfl⟩ := List.cons.inj hops
        exact Or.inl ⟨Or.inr rfl, rfl⟩
    | cons op' todo =>
        obtain ⟨rfl, _⟩ := List.cons.inj hops
        cases op' with
        | fetchAddDropped => exact (hlocal _ List.mem_cons_self).elim
        | storeWritePos => exact (hlocal _ List.mem_cons_self).elim
        | storeData st => exact Or.inr (Or.inl ⟨st, rfl, hsafe st List.mem_cons_self⟩)
        | addLocalWritePos n => exact Or.inr (Or.inr ⟨n, rfl⟩)

/-- A step of the consumer moves in front of an access of the producer that does not end the
call. -/
lemma Inv.move (h : Inv k s) (hstep : ProducerStep ObservesRecent s s') (hopen : s'.ops ≠ [])
    (hdaemon : DaemonStep s' t) :
    ∃ t', DaemonStep s t' ∧ ProducerStep ObservesRecent t' t := by
  have hquiet : Frames.Agree ringFormat s.rb.data s.rb.data (2 ^ k) s.consumed s.announced :=
    ⟨fun _ _ _ => rfl, fun _ _ hmark => hmark⟩
  cases hstep with
  | beginWrite payload payloadLen r hidle hr hobs =>
      obtain ⟨t', hfirst, hsame, rfl⟩ := DaemonStep.move (h.reads_eq hquiet) hdaemon
      obtain ⟨hdata, hlocal, hcapacity⟩ := hsame.fields
      have hobs' : ObservesRecent t' r := by
        rw [ObservesRecent, hsame.written, hcapacity]
        exact hobs
      have hbegin : t'.work s.rb.data s.rb.localWritePos (s.beginWrite payload payloadLen r).ops
          (payload.load 0 payloadLen.toNat) s.written = t'.beginWrite payload payloadLen r := by
        rw [← hdata, ← hlocal, ← hsame.written]
        unfold work Spsc.beginWrite
        rw [lumbreRingbufWriteOps_congr hsame.ring]
      refine ⟨t', hfirst, ?_⟩
      change ProducerStep ObservesRecent t' (t'.work s.rb.data s.rb.localWritePos
        (s.beginWrite payload payloadLen r).ops (payload.load 0 payloadLen.toNat) s.written)
      rw [hbegin]
      exact .beginWrite payload payloadLen r (hsame.ops.trans hidle) (hsame.published r hr) hobs'
  | @perform op rest hops =>
      rcases h.perform_cases hops with ⟨_, hlast⟩ | ⟨st, rfl, hsafe⟩ | ⟨n, rfl⟩
      · exact absurd hlast hopen
      · have hagree := agree_store (m := s.rb.data) (Nat.two_pow_pos k) hsafe
        obtain ⟨t', hfirst, hsame, rfl⟩ := DaemonStep.move (h.reads_eq hagree) hdaemon
        obtain ⟨hdata, hlocal, _⟩ := hsame.fields
        have hperform : t'.work (s.rb.data.store st) s.rb.localWritePos rest s.message s.written =
            t'.perform (.storeData st) rest := by
          rw [← hdata, ← hlocal, ← hsame.message, ← hsame.written]
          rfl
        refine ⟨t', hfirst, ?_⟩
        change ProducerStep ObservesRecent t'
          (t'.work (s.rb.data.store st) s.rb.localWritePos rest s.message s.written)
        rw [hperform]
        exact .perform (hsame.ops.trans hops)
      · obtain ⟨t', hfirst, hsame, rfl⟩ := DaemonStep.move (h.reads_eq hquiet) hdaemon
        obtain ⟨hdata, hlocal, _⟩ := hsame.fields
        have hperform : t'.work s.rb.data (s.rb.localWritePos + n) rest s.message
            (s.written + n.toNat) = t'.perform (.addLocalWritePos n) rest := by
          rw [← hdata, ← hlocal, ← hsame.message, ← hsame.written]
          rfl
        refine ⟨t', hfirst, ?_⟩
        change ProducerStep ObservesRecent t' (t'.work s.rb.data (s.rb.localWritePos + n) rest
          s.message (s.written + n.toNat))
        rw [hperform]
        exact .perform (hsame.ops.trans hops)

/-! ## A call without interruption -/

/-- The accesses of the call in progress, one after the other. -/
def performAll (s : Spsc) : List WriteOp → Spsc
  | [] => s
  | op :: rest => (s.perform op rest).performAll rest

lemma reflTransGen_performAll (s : Spsc) :
    Relation.ReflTransGen (Step Observes) s (s.performAll s.ops) := by
  induction hops : s.ops generalizing s with
  | nil => exact .refl
  | cons op rest ih => exact .head (.perform hops) (ih (s.perform op rest) rfl)

/-- The accesses in front of the publishing store. -/
lemma performAll_local {todo tail : List WriteOp} (hops : s.ops = todo ++ tail)
    (hlocal : ∀ op ∈ todo, op.IsLocal) :
    s.performAll (todo ++ tail) =
      Spsc.performAll
        { s with
          rb := s.rb.execAll todo
          ops := tail
          written := s.written + pendingAdvance todo } tail := by
  induction todo generalizing s with
  | nil =>
      obtain rfl : tail = s.ops := hops.symm
      rfl
  | cons op todo ih =>
      have hop : op ≠ .storeWritePos := by
        rintro rfl
        exact hlocal _ List.mem_cons_self
      have hrest := ih (s := s.perform op (todo ++ tail)) rfl fun op hop =>
        hlocal op (List.mem_cons_of_mem _ hop)
      change (s.perform op (todo ++ tail)).performAll (todo ++ tail) = _
      rw [hrest]
      congr 1
      simp only [perform, if_neg hop, Nat.add_assoc]
      rfl

lemma localWritePos_execAll {todo : List WriteOp} (hlocal : ∀ op ∈ todo, op.IsLocal)
    (rb : LumbreRingbuf) :
    (rb.execAll todo).localWritePos = rb.localWritePos + UInt64.ofNat (pendingAdvance todo) := by
  induction todo generalizing rb with
  | nil => exact (UInt64.add_zero _).symm
  | cons op todo ih =>
      have hrest := ih (fun op hop => hlocal op (List.mem_cons_of_mem _ hop)) (rb.exec op)
      have hadvance : pendingAdvance (op :: todo) = op.advance + pendingAdvance todo := rfl
      change ((rb.exec op).execAll todo).localWritePos = _
      rw [hrest, hadvance, UInt64.ofNat_add, ← UInt64.add_assoc]
      congr 1
      cases op with
      | fetchAddDropped => exact (UInt64.add_zero _).symm
      | storeData st => exact (UInt64.add_zero _).symm
      | storeWritePos => exact (UInt64.add_zero _).symm
      | addLocalWritePos n =>
          change rb.localWritePos + n = rb.localWritePos + UInt64.ofNat n.toNat
          rw [UInt64.ofNat_toNat]

/-- **A call that is not interrupted is `lumbreRingbufWrite`.** -/
lemma performAll_beginWrite (hg : Geometry s.rb k) (hk : 2 ≤ k) (hidle : s.ops = [])
    (payload : Mem) (payloadLen : UInt32) (r : ℕ) :
    (s.beginWrite payload payloadLen r).performAll (s.beginWrite payload payloadLen r).ops =
      s.write payload payloadLen r := by
  have hcall : lumbreRingbufWrite (s.rb.withReadPos (UInt64.ofNat r)) payload payloadLen =
      ((lumbreRingbufWriteOps s.rb (UInt64.ofNat r) payload payloadLen).1,
        (s.rb.withReadPos (UInt64.ofNat r)).execAll
          (lumbreRingbufWriteOps s.rb (UInt64.ofNat r) payload payloadLen).2) := rfl
  have hback : ∀ ops : List WriteOp,
      ((s.rb.withReadPos (UInt64.ofNat r)).execAll ops).withReadPos s.rb.header.readPos =
        s.rb.execAll ops := by
    intro ops
    rw [LumbreRingbuf.execAll_withReadPos]
    rfl
  have hposition : ∀ ops : List WriteOp,
      ((s.rb.withReadPos (UInt64.ofNat r)).execAll ops).localWritePos =
        (s.rb.execAll ops).localWritePos := by
    intro ops
    rw [← hback ops]
    rfl
  unfold Spsc.write beginWrite
  rw [hcall]
  rcases lumbreRingbufWriteOps_shape hg hk (UInt64.ofNat r) payload payloadLen with
    hops | ⟨todo, hops, hlocal, hbound⟩
  · have hsame : ((s.rb.execAll [.fetchAddDropped]).localWritePos - s.rb.localWritePos).toNat = 0 := by
      change (s.rb.localWritePos - s.rb.localWritePos).toNat = 0
      rw [UInt64.sub_self]
      rfl
    rw [hops]
    dsimp only
    rw [hback, hposition, hsame, hidle]
    rfl
  · have hadvance : ((s.rb.execAll (todo ++ [.storeWritePos])).localWritePos -
        s.rb.localWritePos).toNat = pendingAdvance todo := by
      rw [LumbreRingbuf.execAll_append]
      change ((s.rb.execAll todo).localWritePos - s.rb.localWritePos).toNat = _
      rw [localWritePos_execAll hlocal, UInt64.add_comm, UInt64.add_sub_cancel, toNat_counter]
      exact Nat.mod_eq_of_lt hbound
    rw [hops]
    dsimp only
    rw [hback, hposition, hadvance, performAll_local rfl hlocal, LumbreRingbuf.execAll_append, hidle]
    rfl

/-- An access leads on to where the call ends. -/
lemma performAll_of_inside (h : Inside (ProducerStep Observes) (fun s => s.ops = []) s t)
    (hopen : s.ops ≠ []) : t.ops ≠ [] ∧ t.performAll t.ops = s.performAll s.ops := by
  induction h with
  | refl => exact ⟨hopen, rfl⟩
  | tail _ hstep ih =>
      obtain ⟨hopen', hsame⟩ := ih
      obtain ⟨hstep, hnext⟩ := hstep
      refine ⟨hnext, ?_⟩
      cases hstep with
      | beginWrite _ _ _ hidle _ _ => exact absurd hidle hopen'
      | perform hops =>
          rw [← hsame, hops]
          rfl

/-- A block of the producer is an uninterrupted call. -/
lemma Inv.atomicStep (h : Inv k s) (hk : 2 ≤ k)
    (hblock : BlockStep (ProducerStep Observes) DaemonStep (fun s => s.ops = []) s t) :
    AtomicStep Observes s t := by
  cases hblock with
  | outer hidle hstep => exact .daemon hidle hstep
  | @block u _ hidle hinside hlast hends =>
      have hbegun : ∀ payload payloadLen r, (s.beginWrite payload payloadLen r).ops ≠ [] := by
        intro payload payloadLen r
        change (lumbreRingbufWriteOps s.rb (UInt64.ofNat r) payload payloadLen).2 ≠ []
        rcases lumbreRingbufWriteOps_shape h.geometry hk (UInt64.ofNat r) payload payloadLen with
          hops | ⟨todo, hops, _⟩
        · rw [hops]
          exact List.cons_ne_nil _ _
        · rw [hops]
          exact List.append_ne_nil_of_right_ne_nil todo (List.cons_ne_nil _ _)
      rcases Relation.ReflTransGen.cases_head hinside with rfl | ⟨v, ⟨hfirst, hopen⟩, hrest⟩
      · -- a call takes more than one step
        cases hlast with
        | beginWrite payload payloadLen r _ _ _ =>
            exact absurd hends (hbegun payload payloadLen r)
        | perform hops =>
            rw [hidle] at hops
            exact absurd hops (List.cons_ne_nil _ _).symm
      · obtain ⟨hstill, hsame⟩ := performAll_of_inside hrest hopen
        cases hfirst with
        | perform hops =>
            rw [hidle] at hops
            exact absurd hops (List.cons_ne_nil _ _).symm
        | beginWrite payload payloadLen r _ hr hobs =>
            cases hlast with
            | beginWrite _ _ _ hidle' _ _ => exact absurd hidle' hstill
            | @perform op rest hops =>
                obtain rfl : rest = [] := hends
                have hend : u.perform op [] = s.write payload payloadLen r := by
                  rw [← performAll_beginWrite h.geometry hk hidle payload payloadLen r, ← hsame,
                    hops]
                  rfl
                rw [hend]
                exact .write payload payloadLen r hidle hr hobs

/-! ## Every run -/

/-- Uninterrupted calls are a way to take the steps. -/
lemma reachable_of_atomicReachable {capacity : UInt32} (hinit : Initialised capacity rb)
    (hcap : capacity.toNat = 2 ^ k) (hk : 2 ≤ k) (h : AtomicReachable ObservesRecent rb s) :
    Reachable ObservesRecent rb s := by
  induction h with
  | refl => exact .refl
  | tail _ hstep ih =>
      cases hstep with
      | daemon _ hdaemon => exact ih.tail hdaemon.step
      | write payload payloadLen r hidle hr hobs =>
          have hinv := inv_of_reachable hinit hcap hk ih
          rw [← performAll_beginWrite hinv.geometry hk hidle payload payloadLen r]
          exact (ih.tail (.beginWrite payload payloadLen r hidle hr hobs)).trans
            (reflTransGen_performAll _)

/-- Runs of whole blocks are runs of uninterrupted calls. -/
lemma atomicReachable_of_blocks {capacity : UInt32} (hinit : Initialised capacity rb)
    (hcap : capacity.toNat = 2 ^ k) (hk : 2 ≤ k)
    (h : Relation.ReflTransGen (BlockStep (ProducerStep ObservesRecent) DaemonStep
      fun s => s.ops = []) (initial rb) s) :
    AtomicReachable ObservesRecent rb s ∧ Inv k s := by
  induction h with
  | refl => exact ⟨.refl, inv_initial hinit hcap⟩
  | tail _ hblock ih =>
      obtain ⟨hatomic, hinv⟩ := ih
      refine ⟨hatomic.tail (hinv.atomicStep hk hblock), hblock.invariant ?_ ?_ hinv⟩
      · exact fun _ _ hs hstep => hs.step hk hstep.step
      · exact fun _ _ hs hstep => hs.step hk hstep.step

/-- **A write is atomic to the consumer.** On a fresh ring of `2 ^ k ≥ 4` bytes, in every interleaving
in which each call sees a position published less than `2 ^ 64 - capacity` bytes ago: the states
between calls are those of the runs in which `lumbreRingbufWrite` is never interrupted, the bytes of
the ring included, and a state within a call is such a state with the first accesses of the call
behind it. -/
theorem write_atomic {capacity : UInt32} (hinit : Initialised capacity rb)
    (hcap : capacity.toNat = 2 ^ k) (hk : 2 ≤ k) :
    (∀ s, s.ops = [] →
        (Reachable ObservesRecent rb s ↔ AtomicReachable ObservesRecent rb s)) ∧
      ∀ s, Reachable ObservesRecent rb s →
        ∃ t, AtomicReachable ObservesRecent rb t ∧ t.ops = [] ∧
          Inside (ProducerStep ObservesRecent) (fun s => s.ops = []) t s := by
  have hinner : ∀ s t, Inv k s → ProducerStep ObservesRecent s t → Inv k t :=
    fun _ _ hs hstep => hs.step hk hstep.step
  have houter : ∀ s t, Inv k s → DaemonStep s t → Inv k t := fun _ _ hs hstep =>
    hs.step hk hstep.step
  have hidle : ∀ s t : Spsc, DaemonStep s t → (s.ops = [] ↔ t.ops = []) := by
    intro s t hstep
    cases hstep with
    | publish => exact Iff.rfl
    | loop h => rw [h.producer_eq.2.1]
  have hall : ∀ s, Reachable ObservesRecent rb s →
      ∃ t, AtomicReachable ObservesRecent rb t ∧ t.ops = [] ∧
        Inside (ProducerStep ObservesRecent) (fun s => s.ops = []) t s := by
    intro s hs
    have hparties : Relation.ReflTransGen
        (fun s t => ProducerStep ObservesRecent s t ∨ DaemonStep s t) (initial rb) s :=
      hs.lift id fun _ _ hstep => step_cases hstep
    obtain ⟨t, hblocks, hends, hinside, _⟩ := exists_blocks hinner houter hidle
      (fun _ _ _ hI => hI.move) hparties (inv_initial hinit hcap) rfl
    exact ⟨t, (atomicReachable_of_blocks hinit hcap hk hblocks).1, hends, hinside⟩
  refine ⟨?_, hall⟩
  intro s hends
  constructor
  · intro hs
    obtain ⟨t, ht, _, hinside⟩ := hall s hs
    rw [hinside.eq_of_idle hends]
    exact ht
  · exact reachable_of_atomicReachable hinit hcap hk

/-- Calls with steps of the daemon inside them lead where uninterrupted ones lead. -/
theorem write_atomic_interleaved :
    ∃ s, AtomicReachable ObservesRecent (freshRing 16) s ∧ s.rb.header.dropped = 1 ∧
      s.accepted = [[7, 7, 7, 7, 7], [9, 9, 9, 9]] ∧ s.delivered = [[7, 7, 7, 7, 7]] := by
  obtain ⟨s, hreach, hview⟩ := exists_reachable_of_run (freshRing 16) interleavedTurns
    (fun s => (s.ops, s.accepted, s.delivered, s.rb.header.dropped))
    ([], [[7, 7, 7, 7, 7], [9, 9, 9, 9]], [[7, 7, 7, 7, 7]], 1) (by decide +kernel)
  simp only [Prod.mk.injEq] at hview
  obtain ⟨hidle, haccepted, hdelivered, hdropped⟩ := hview
  obtain ⟨hatomic, _⟩ := write_atomic (initialised_freshRing 16) (k := 4) rfl (by decide)
  exact ⟨s, (hatomic s hidle).mp hreach, hdropped, haccepted, hdelivered⟩

end Spsc

end LumbreExt
