import LumbreExt.Ringbuf.Atomicity

/-!
# The shared file

The mapping as the bytes both parties find in it: the packed header of 64 bytes, and the data.

* `LumbreRingbufHeader.fields`, `LumbreRingbufHeader.bytes` — the layout of the header struct;
  `LumbreRingbufHeader.parse` reads the fields at the offsets that the table in `lumbre_ringbuf.h`
  lists for the daemon.
* `LumbreRingbuf.file` — the bytes of the mapping; what follows the data area is behind the file.
* `file_of_field` — a header that differs in one field differs in the bytes of that field.
* `Spsc.file_ownership` — in every run the header parses as what it says, and each party writes its
  own bytes only; those of the producer include three bytes behind the file (`Spsc.ProducerOwns`).
-/

namespace LumbreExt

open Lib

/-! ## The header -/

/-- The fields of the packed struct with their widths; `_pad0` and `_reserved` stay as `memset` has
left them.
Source: `lumbre_ringbuf.h`, `lumbre_ringbuf_header_t` -/
def LumbreRingbufHeader.fields (h : LumbreRingbufHeader) : List (ℕ × ℕ) :=
  [(4, h.magic.toNat), (4, h.version.toNat), (4, h.capacity.toNat), (4, 0),
    (8, h.writePos.toNat), (8, h.readPos.toNat), (8, h.dropped.toNat), (4, h.pid.toNat),
    (8, h.workerId.toNat), (12, 0)]

/-- The header in memory. -/
def LumbreRingbufHeader.bytes (h : LumbreRingbufHeader) : List UInt8 := packed h.fields

/-- The header as the daemon reads it, at the offsets of the table in `lumbre_ringbuf.h`. -/
def LumbreRingbufHeader.parse (bytes : List UInt8) : LumbreRingbufHeader where
  magic := UInt32.ofNat (fieldAt bytes 0 4)
  version := UInt32.ofNat (fieldAt bytes 4 4)
  capacity := UInt32.ofNat (fieldAt bytes 8 4)
  writePos := UInt64.ofNat (fieldAt bytes 16 8)
  readPos := UInt64.ofNat (fieldAt bytes 24 8)
  dropped := UInt64.ofNat (fieldAt bytes 32 8)
  pid := UInt32.ofNat (fieldAt bytes 40 4)
  workerId := UInt64.ofNat (fieldAt bytes 44 8)

lemma toNat_lt_word (v : UInt32) : v.toNat < 256 ^ 4 := v.toNat_lt

lemma toNat_lt_quad (v : UInt64) : v.toNat < 256 ^ 8 := v.toNat_lt

lemma LumbreRingbufHeader.length_bytes (h : LumbreRingbufHeader) : h.bytes.length = 64 :=
  length_packed h.fields

/-- **The layout is the one the daemon relies on.** -/
lemma LumbreRingbufHeader.parse_bytes (h : LumbreRingbufHeader) : parse h.bytes = h := by
  have hmagic : fieldAt h.bytes 0 4 = h.magic.toNat := fieldAt_packed [] _ (toNat_lt_word _)
  have hversion : fieldAt h.bytes 4 4 = h.version.toNat :=
    fieldAt_packed (h.fields.take 1) _ (toNat_lt_word _)
  have hcapacity : fieldAt h.bytes 8 4 = h.capacity.toNat :=
    fieldAt_packed (h.fields.take 2) _ (toNat_lt_word _)
  have hwritePos : fieldAt h.bytes 16 8 = h.writePos.toNat :=
    fieldAt_packed (h.fields.take 4) _ (toNat_lt_quad _)
  have hreadPos : fieldAt h.bytes 24 8 = h.readPos.toNat :=
    fieldAt_packed (h.fields.take 5) _ (toNat_lt_quad _)
  have hdropped : fieldAt h.bytes 32 8 = h.dropped.toNat :=
    fieldAt_packed (h.fields.take 6) _ (toNat_lt_quad _)
  have hpid : fieldAt h.bytes 40 4 = h.pid.toNat :=
    fieldAt_packed (h.fields.take 7) _ (toNat_lt_word _)
  have hworkerId : fieldAt h.bytes 44 8 = h.workerId.toNat :=
    fieldAt_packed (h.fields.take 8) _ (toNat_lt_quad _)
  unfold parse
  rw [hmagic, hversion, hcapacity, hwritePos, hreadPos, hdropped, hpid, hworkerId]
  simp only [UInt32.ofNat_toNat, UInt64.ofNat_toNat]

/-! ## The mapping -/

/-- The bytes of the mapping, and of what follows it. -/
def LumbreRingbuf.file (rb : LumbreRingbuf) : Mem := fun i =>
  if i < lumbreRingbufHeaderSize.toNat then rb.header.bytes.getD i 0
  else rb.data (i - lumbreRingbufHeaderSize.toNat)

/-- The file starts with the header. -/
lemma LumbreRingbuf.load_file (rb : LumbreRingbuf) : rb.file.load 0 64 = rb.header.bytes := by
  have hlength := rb.header.length_bytes
  rw [← Mem.load_ofList rb.header.bytes, hlength]
  apply Mem.load_congr
  intro i hi
  exact if_pos (show 0 + i < 64 by omega)

/-- With another value in one field, only the bytes of that field differ. -/
lemma file_of_field (rb rb' : LumbreRingbuf) (hdata : rb'.data = rb.data) (xs ys : List (ℕ × ℕ))
    {n v v' i : ℕ} (hfields : rb.header.fields = xs ++ (n, v) :: ys)
    (hfields' : rb'.header.fields = xs ++ (n, v') :: ys) (hne : rb'.file i ≠ rb.file i) :
    packedWidth xs ≤ i ∧ i < packedWidth xs + n := by
  by_contra houtside
  apply hne
  unfold LumbreRingbuf.file
  by_cases hi : i < lumbreRingbufHeaderSize.toNat
  · rw [if_pos hi, if_pos hi, List.getD_eq_getElem?_getD, List.getD_eq_getElem?_getD,
      LumbreRingbufHeader.bytes, LumbreRingbufHeader.bytes, hfields, hfields',
      getElem?_packed_of_outside xs ys (by omega)]
  · rw [if_neg hi, if_neg hi, hdata]

/-- A store into the data area changes one byte of the file. -/
lemma file_of_store {rb : LumbreRingbuf} {st : ℕ × UInt8} {i : ℕ}
    (hne : (rb.exec (.storeData st)).file i ≠ rb.file i) : i = 64 + st.1 := by
  by_contra hother
  apply hne
  unfold LumbreRingbuf.file
  by_cases hi : i < lumbreRingbufHeaderSize.toNat
  · rw [if_pos hi, if_pos hi]
    rfl
  · have hoffset : i - lumbreRingbufHeaderSize.toNat ≠ st.1 := by
      have hsize : lumbreRingbufHeaderSize.toNat = 64 := rfl
      omega
    rw [if_neg hi, if_neg hi]
    exact Function.update_of_ne hoffset st.2 rb.data

/-! ## What stays -/

/-- The file of a ring, and what its header says about it. -/
structure RingLabel where
  path : List UInt8
  magic : UInt32
  version : UInt32
  capacity : UInt32
  pid : UInt32
  workerId : UInt64

/-- The label of a ring. -/
def LumbreRingbuf.label (rb : LumbreRingbuf) : RingLabel :=
  ⟨rb.path, rb.header.magic, rb.header.version, rb.header.capacity, rb.header.pid,
    rb.header.workerId⟩

/-- What `lumbre_ringbuf_init` writes on a file. -/
def ringLabel (shmDir : List UInt8) (pid : UInt32) (workerId : UInt64) (capacity : UInt32) :
    RingLabel :=
  ⟨ringPath shmDir pid workerId, lumbreRingbufMagic, lumbreRingbufVersion,
    lumbreNextPowerOf2 capacity, pid, workerId⟩

/-- **`lumbre_ringbuf_init` opens the file of its process and worker, or leaves no file behind.** -/
lemma lumbreRingbufInit_spec (ans : InitAnswers) (os : OsResources) (shmDir : List UInt8)
    (pid : UInt32) (workerId : UInt64) (capacity : UInt32) :
    (∃ os', lumbreRingbufInit ans os shmDir pid workerId capacity = (os', none) ∧
        (os'.files = os.files ∨ os'.files = os.files.erase (ringPath shmDir pid workerId))) ∨
      ∃ os' rb, lumbreRingbufInit ans os shmDir pid workerId capacity = (os', some rb) ∧
        os'.files = rb.path :: os.files.erase rb.path ∧
        rb.label = ringLabel shmDir pid workerId capacity := by
  unfold lumbreRingbufInit
  dsimp only
  by_cases hpath : ringPathSize ≤ (ringPath shmDir pid workerId).length
  · exact Or.inl ⟨os, if_pos hpath, Or.inl rfl⟩
  rw [if_neg hpath]
  cases ans.fd with
  | none => exact Or.inl ⟨os, rfl, Or.inl rfl⟩
  | some fd =>
      by_cases hfailed : (!ans.ftruncateOk || !ans.mmapOk) = true
      · exact Or.inl ⟨_, if_pos hfailed, Or.inr (List.erase_cons_head _ _)⟩
      · exact Or.inr ⟨_, _, if_neg hfailed, rfl, rfl⟩

lemma LumbreRingbuf.label_exec (rb : LumbreRingbuf) (op : WriteOp) :
    (rb.exec op).label = rb.label := by
  cases op <;> rfl

/-- No write changes the label. -/
lemma LumbreRingbuf.label_execAll (rb : LumbreRingbuf) (ops : List WriteOp) :
    (rb.execAll ops).label = rb.label := by
  induction ops generalizing rb with
  | nil => rfl
  | cons op ops ih => exact (ih (rb.exec op)).trans (rb.label_exec op)

/-! ## Who writes what -/

namespace Spsc

variable {k : ℕ} {s s' : Spsc} {rb : LumbreRingbuf}

/-- The label is written once, by `lumbre_ringbuf_init`. -/
lemma Step.label_eq {Observes : Spsc → ℕ → Prop} (h : Step Observes s s') :
    s'.rb.label = s.rb.label := by
  rcases step_cases h with h | h
  · cases h with
    | beginWrite _ _ _ _ _ _ => rfl
    | perform _ => exact s.rb.label_exec _
  · cases h with
    | publish => rfl
    | loop h => rw [h.producer_eq.1]

lemma label_of_reachable {Observes : Spsc → ℕ → Prop} (h : Reachable Observes rb s) :
    s.rb.label = rb.label := by
  induction h with
  | refl => rfl
  | tail _ hstep ih => exact hstep.label_eq.trans ih

/-- A call stores at most three bytes behind the ring. -/
lemma storedIndices_lt (hg : Geometry rb k) (hk : 2 ≤ k) (readPos : UInt64) (payload : Mem)
    (payloadLen : UInt32) :
    ∀ i ∈ storedIndices (lumbreRingbufWriteOps rb readPos payload payloadLen).2, i < 2 ^ k + 3 := by
  have hoffset := hg.offset_lt
  have hmsg : (payload.load 0 payloadLen.toNat).length = payloadLen.toNat :=
    Mem.load_length payload 0 payloadLen.toNat
  intro i hi
  rcases lumbreRingbufWriteOps_cases hg hk readPos payload payloadLen with
    ⟨_, hops⟩ | ⟨⟨_, _, hend⟩, hops⟩ | ⟨⟨hfit, _⟩, hops⟩
  · rw [hops] at hi
    exact absurd hi List.not_mem_nil
  · rw [hops, mem_storedIndices_frameOps] at hi
    omega
  · rw [hops, storedIndices_append, List.mem_append, mem_storedIndices_padOps,
      mem_storedIndices_frameOps] at hi
    omega

/-- What a call in progress has still to store ends there, too. -/
lemma storedIndices_lt_of_reachable {capacity : UInt32} (hinit : Initialised capacity rb)
    (hcap : capacity.toNat = 2 ^ k) (hk : 2 ≤ k) (h : Reachable ObservesRecent rb s) :
    ∀ i ∈ storedIndices s.ops, i < 2 ^ k + 3 := by
  induction h with
  | refl => exact fun i hi => absurd hi List.not_mem_nil
  | tail hrun hstep ih =>
      have hinv := inv_of_reachable hinit hcap hk hrun
      rcases step_cases hstep with hstep | hstep
      · cases hstep with
        | beginWrite payload payloadLen r _ _ _ =>
            exact storedIndices_lt hinv.geometry hk _ payload payloadLen
        | @perform op rest hops =>
            intro i hi
            apply ih
            rw [hops]
            exact ((List.sublist_cons_self op rest).filterMap _).subset hi
      · cases hstep with
        | publish => exact ih
        | loop h =>
            rw [h.producer_eq.2.1]
            exact ih

/-- The bytes of the producer: `write_pos`, `dropped`, the part of the data area that is not unread,
and the three bytes behind the file: a padding marker is four bytes, and reaches over the end when it
is stored with fewer left. -/
def ProducerOwns (C : ℕ) (s : Spsc) (i : ℕ) : Prop :=
  (16 ≤ i ∧ i < 24) ∨ (32 ≤ i ∧ i < 40) ∨
    (64 ≤ i ∧ i < 64 + C ∧ ∀ x, s.consumed ≤ x → x < s.announced → i ≠ 64 + x % C) ∨
    (64 + C ≤ i ∧ i < 64 + C + 3)

/-- The bytes of the consumer: `read_pos`. -/
def DaemonOwns (i : ℕ) : Prop := 24 ≤ i ∧ i < 32

/-- An access of the producer stays among its bytes. -/
lemma Inv.producerOwns (h : Inv k s) (hstored : ∀ i ∈ storedIndices s.ops, i < 2 ^ k + 3)
    (hstep : ProducerStep ObservesRecent s s') {i : ℕ} (hne : s'.rb.file i ≠ s.rb.file i) :
    ProducerOwns (2 ^ k) s i := by
  cases hstep with
  | beginWrite _ _ _ _ _ _ => exact absurd rfl hne
  | @perform op rest hops =>
      cases op with
      | fetchAddDropped =>
          have hfield := file_of_field s.rb (s.rb.exec .fetchAddDropped) rfl
            (s.rb.header.fields.take 6) (s.rb.header.fields.drop 7) rfl rfl hne
          exact Or.inr (Or.inl hfield)
      | storeWritePos =>
          have hfield := file_of_field s.rb (s.rb.exec .storeWritePos) rfl
            (s.rb.header.fields.take 4) (s.rb.header.fields.drop 5) rfl rfl hne
          exact Or.inl hfield
      | addLocalWritePos n => exact absurd rfl hne
      | storeData st =>
          have hbyte : i = 64 + st.1 := file_of_store hne
          have hlt : st.1 < 2 ^ k + 3 := by
            apply hstored
            rw [hops]
            exact List.mem_cons_self
          rcases h.perform_cases hops with ⟨hlast | hlast, _⟩ | ⟨st', hst', hsafe⟩ | ⟨_, hadvance⟩
          · exact WriteOp.noConfusion hlast
          · exact WriteOp.noConfusion hlast
          · obtain rfl := WriteOp.storeData.inj hst'
            rcases hsafe with ⟨hinside, hunread⟩ | ⟨hbehind, _⟩
            · refine Or.inr (Or.inr (Or.inl ⟨by omega, by omega, ?_⟩))
              intro x hx hx'
              have hother := hunread x hx hx'
              omega
            · exact Or.inr (Or.inr (Or.inr ⟨by omega, by omega⟩))
          · exact WriteOp.noConfusion hadvance

/-- **Each party writes its own bytes of the shared file.** On a ring of `2 ^ k ≥ 4` bytes that
`lumbre_ringbuf_init` has opened, in every interleaving in which each call sees a position published
less than `2 ^ 64 - capacity` bytes ago: the first 64 bytes of the file parse, at the offsets of the
documented table, as the header of this ring, with the position announced last; an access of the
producer changes `write_pos`, `dropped`, data that is not unread, or one of the three bytes behind the
file, into which a padding marker may reach; and a step of the consumer changes `read_pos` only. -/
theorem file_ownership {ans : InitAnswers} {os os' : OsResources} {shmDir : List UInt8} {pid : UInt32}
    {workerId : UInt64} {capacity : UInt32}
    (hinit : lumbreRingbufInit ans os shmDir pid workerId capacity = (os', some rb))
    (hcap : capacity.toNat = 2 ^ k) (hk : 2 ≤ k) (h : Reachable ObservesRecent rb s) :
    LumbreRingbufHeader.parse (s.rb.file.load 0 64) =
        { magic := lumbreRingbufMagic
          version := lumbreRingbufVersion
          capacity := capacity
          writePos := UInt64.ofNat s.announced
          readPos := s.rb.header.readPos
          dropped := s.rb.header.dropped
          pid := pid
          workerId := workerId } ∧
      (∀ s', ProducerStep ObservesRecent s s' →
        ∀ i, s'.rb.file i ≠ s.rb.file i → ProducerOwns (2 ^ k) s i) ∧
      ∀ s', DaemonStep s s' → ∀ i, s'.rb.file i ≠ s.rb.file i → DaemonOwns i := by
  have hinitialised : Initialised capacity rb := ⟨ans, os, os', shmDir, pid, workerId, hinit⟩
  have hinv := inv_of_reachable hinitialised hcap hk h
  have hlabel : s.rb.label = ringLabel shmDir pid workerId capacity := by
    rw [label_of_reachable h]
    rcases lumbreRingbufInit_spec ans os shmDir pid workerId capacity with
      ⟨_, hfailed, _⟩ | ⟨_, rb', hopened, _, hrb'⟩
    · rw [hinit] at hfailed
      exact absurd (Prod.mk.inj hfailed).2 (Option.some_ne_none rb)
    · rw [hinit] at hopened
      rw [Option.some_inj.mp (Prod.mk.inj hopened).2, hrb']
  rw [ringLabel, lumbreNextPowerOf2_of_toNat hcap] at hlabel
  injection hlabel with _ hmagic hversion hcapacity hpid hworkerId
  refine ⟨?_, ?_, ?_⟩
  · rw [LumbreRingbuf.load_file, LumbreRingbufHeader.parse_bytes, ← hinv.writePos_eq, ← hmagic,
      ← hversion, ← hcapacity, ← hpid, ← hworkerId]
  · intro s' hstep i hne
    exact hinv.producerOwns (storedIndices_lt_of_reachable hinitialised hcap hk h) hstep hne
  · intro s' hstep i hne
    cases hstep with
    | loop hloop => exact absurd (by rw [hloop.producer_eq.1]) hne
    | publish =>
        exact file_of_field s.rb s.publish.rb rfl (s.rb.header.fields.take 5)
          (s.rb.header.fields.drop 6) rfl rfl hne

/-- A message of two bytes lies unread in a ring of 16 bytes, and the next call has stored the first
three of its bytes: nobody changes the frame of the first. -/
theorem file_ownership_unread_message :
    ∃ s, Reachable ObservesRecent (freshRing 16) s ∧ s.ops ≠ [] ∧
      (LumbreRingbufHeader.parse (s.rb.file.load 0 64)).writePos = 6 ∧
      (∀ s', ProducerStep ObservesRecent s s' → ∀ i, 64 ≤ i → i < 70 →
        s'.rb.file i = s.rb.file i) ∧
      ∀ s', DaemonStep s s' → ∀ i, 32 ≤ i → s'.rb.file i = s.rb.file i := by
  obtain ⟨s, hreach, hview⟩ := exists_reachable_of_run (freshRing 16)
    (.beginWrite (fun _ => 7) 2 0 :: List.replicate 8 .perform ++
      .beginWrite (fun _ => 8) 2 0 :: List.replicate 3 .perform)
    (fun s => (s.ops.isEmpty, s.consumed, s.announced)) (false, 0, 6) (by decide +kernel)
  simp only [Prod.mk.injEq] at hview
  obtain ⟨hops, hconsumed, hannounced⟩ := hview
  have hinit : lumbreRingbufInit ⟨some 3, true, true⟩ ⟨0, 0, []⟩ (ascii "/dev/shm") 1 0 16 =
      (_, some (freshRing 16)) := rfl
  obtain ⟨hparse, hproducer, hdaemon⟩ := file_ownership hinit (k := 4) rfl (by decide) hreach
  refine ⟨s, hreach, List.isEmpty_eq_false_iff.mp hops, by rw [hparse, hannounced]; rfl, ?_, ?_⟩
  · intro s' hstep i hfrom hto
    by_contra hne
    rcases hproducer s' hstep i hne with hfield | hfield | ⟨_, _, hunread⟩ | ⟨hbehind, _⟩
    · omega
    · omega
    · exact hunread (i - 64) (by omega) (by omega) (by omega)
    · omega
  · intro s' hstep i hfrom
    by_contra hne
    have howns := hdaemon s' hstep i hne
    exact absurd howns.2 (by omega)

end Spsc

end LumbreExt
