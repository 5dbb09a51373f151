import LumbreExt.Module.System
import LumbreExt.Span.Size

/-!
# How long a payload has to be

MessagePack has several forms for most objects, and the packer does without some of them: it has none
for a string of 32 to 255 bytes with a length of one byte. What this costs:

* `tokenSlack`, `tokenSize_le_add` — one byte for each such string, and nothing for any other token.
* `LumbreSpan.encodedSize_le` — at most three bytes for a span, next to any representation of it.
* `System.forall_log` — what holds of the finish of every well-formed span holds of every finish of a
  run.
* `System.payload_near_shortest` — so no payload of a run is more than three bytes too long, and a
  span that is lost for its size has no representation that would leave these bytes free.
-/

namespace LumbreExt

open Lib Lib.MsgPack

/-! ## Tokens -/

/-- The bytes by which the packer's form of a token may be longer than another form. -/
def tokenSlack : Token → ℕ
  | .scalar (.str bs) => if 32 ≤ bs.length ∧ bs.length < 256 then 1 else 0
  | _ => 0

lemma tokenSlack_le_one (t : Token) : tokenSlack t ≤ 1 := by
  unfold tokenSlack
  split
  · split_ifs <;> omega
  · exact Nat.zero_le 1

/-- **The packer's form of a token is one of the shortest**, strings of 32 to 255 bytes apart. -/
lemma tokenSize_le_add (t : Token) : tokenSize t ≤ t.minBytes + tokenSlack t := by
  cases t with
  | map n =>
      simp only [tokenSize, Token.minBytes, tokenSlack]
      split_ifs <;> omega
  | array n => exact Nat.zero_le _
  | scalar s =>
      cases s with
      | int i =>
          simp only [tokenSize, Token.minBytes, tokenSlack]
          split_ifs <;> omega
      | str bs =>
          simp only [tokenSize, Token.minBytes, tokenSlack]
          split_ifs <;> omega
      | bin bs =>
          simp only [tokenSize, Token.minBytes, tokenSlack]
          split_ifs <;> omega
      | _ => exact Nat.zero_le _

/-! ## Spans -/

/-- The bytes by which a key and its value may be too long. -/
def fieldSlack (field : List UInt8 × Scalar) : ℕ :=
  tokenSlack (.scalar (.str field.1)) + tokenSlack (.scalar field.2)

lemma sum_fieldSize_le (fields : List (List UInt8 × Scalar)) :
    (fields.map fieldSize).sum ≤
      (fields.map fun f => pairMinBytes (.str f.1, f.2)).sum + (fields.map fieldSlack).sum := by
  induction fields with
  | nil => exact le_rfl
  | cons field fields ih =>
      have hfield : fieldSize field ≤ pairMinBytes (.str field.1, field.2) + fieldSlack field := by
        have hkey := tokenSize_le_add (.scalar (.str field.1))
        have hvalue := tokenSize_le_add (.scalar field.2)
        rw [fieldSize, pairMinBytes, fieldSlack]
        dsimp only
        omega
      simp only [List.map_cons, List.sum_cons]
      omega

/-- The value is a string. -/
def isString (field : List UInt8 × Scalar) : Bool :=
  match field.2 with
  | .str _ => true
  | _ => false

/-- Behind short keys, only strings may be too long. -/
lemma sum_fieldSlack_le {fields : List (List UInt8 × Scalar)} (h : ∀ f ∈ fields, f.1.length < 32) :
    (fields.map fieldSlack).sum ≤ (fields.filter isString).length := by
  induction fields with
  | nil => exact le_rfl
  | cons field fields ih =>
      obtain ⟨hkey, hrest⟩ := List.forall_mem_cons.mp h
      have hzero : tokenSlack (.scalar (.str field.1)) = 0 := if_neg fun hlong => by omega
      have hvalue : tokenSlack (.scalar field.2) ≤ if isString field then 1 else 0 := by
        unfold isString
        cases field.2 with
        | str bs => exact tokenSlack_le_one _
        | _ => exact le_rfl
      have hfields := ih hrest
      rw [List.map_cons, List.sum_cons, fieldSlack, hzero, List.filter_cons]
      split_ifs at hvalue ⊢
      · rw [List.length_cons]
        omega
      · omega

namespace LumbreSpan

/-- The keys of a span are short. -/
lemma length_key_lt (span : LumbreSpan) : ∀ f ∈ span.fields, f.1.length < 32 := by
  unfold fields commonFields typeFields
  split_ifs <;> simp [ascii]

/-- No type has more than three strings. -/
lemma strings_le (span : LumbreSpan) : (span.fields.filter isString).length ≤ 3 := by
  unfold fields commonFields typeFields
  split_ifs <;> simp [List.filter_cons, isString]

/-- **A span takes at most three bytes more than any representation of it.** -/
lemma encodedSize_le {span : LumbreSpan} {bs : List UInt8}
    (h : decodeAll bs = some (.map (span.fields.map entry))) : span.encodedSize ≤ bs.length + 3 := by
  have hpairs : span.fields.map entry =
      (span.fields.map fun f => (Scalar.str f.1, f.2)).map fun e => (.scalar e.1, .scalar e.2) := by
    rw [List.map_map]
    rfl
  rw [hpairs] at h
  have hmin := minBytes_decodeAll_le h
  rw [List.length_map, List.map_map] at hmin
  have hheader := tokenSize_le_add (.map span.fields.length)
  have hfields := sum_fieldSize_le span.fields
  have hslack := (sum_fieldSlack_le span.length_key_lt).trans span.strings_le
  have hnone : tokenSlack (.map span.fields.length) = 0 := rfl
  rw [encodedSize]
  change _ + (span.fields.map fun f => pairMinBytes (.str f.1, f.2)).sum ≤ _ at hmin
  omega

end LumbreSpan

/-! ## Finishes -/

/-- **What a finish hands over, and what it loses for its size**, next to any representation of the
span. -/
lemma FinishCall.near_shortest {fc : FinishCall} {rb : LumbreRingbuf} (hspan : fc.span.WellFormed)
    (hcap : fc.mpBuf.capacity = lumbreMsgpackBufSize) {bs : List UInt8}
    (h : decodeAll bs = some (fc.result rb).spanValue) :
    (∀ payload, (fc.result rb).handed = some payload → payload.length ≤ bs.length + 3) ∧
      ((fc.result rb).outcome = .overflowed → 16384 < bs.length + 3) := by
  have hwell := hspan.recorded fc.maxQueryLen fc.clockNs
  have hsize : lumbreMsgpackBufSize.toNat = 16384 := rfl
  have hiff := lumbreSpanEncode_rc_iff hwell fc.mpBuf
  rw [hcap, hsize] at hiff
  unfold result at h ⊢
  rcases lumbreSpanFinish_cases fc.span (rb.withReadPos fc.readPos) fc.mpBuf fc.ctx fc.minDurationNs
      fc.clockNs fc.maxQueryLen with ⟨_, hr⟩ | ⟨_, rc, b, hencode, ⟨hrc, hr⟩ | ⟨hrc, hr⟩⟩
  · rw [hr]
    refine ⟨fun _ hnone => absurd hnone.symm (Option.some_ne_none _), ?_⟩
    intro hover
    simp [FinishResult.outcome] at hover
  · -- the span does not fit
    rw [hr] at h ⊢
    refine ⟨fun _ hnone => absurd hnone.symm (Option.some_ne_none _), ?_⟩
    intro _
    rw [hencode] at hiff
    have hle : (fc.span.recorded fc.maxQueryLen fc.clockNs).encodedSize ≤ bs.length + 3 :=
      LumbreSpan.encodedSize_le h
    have hbig : ¬ (fc.span.recorded fc.maxQueryLen fc.clockNs).encodedSize ≤ 16384 := fun hfits =>
      absurd (hiff.mpr hfits) (by omega)
    omega
  · rw [hr] at h ⊢
    have hzero : (lumbreSpanEncode (fc.span.recorded fc.maxQueryLen fc.clockNs)
        (lumbreMsgpackReset fc.mpBuf)).1 = 0 := by
      have hrcs := packAll_rc (fc.span.recorded fc.maxQueryLen fc.clockNs).items
        (lumbreMsgpackReset fc.mpBuf)
      rw [lumbreSpanEncode_eq_packAll] at hencode ⊢
      rw [hencode] at hrcs ⊢
      omega
    have hpos : b.pos.toNat = (fc.span.recorded fc.maxQueryLen fc.clockNs).encodedSize := by
      have hwritten := (lumbreSpanEncode_written hwell hzero).1
      rwa [hencode] at hwritten
    have hle : (fc.span.recorded fc.maxQueryLen fc.clockNs).encodedSize ≤ bs.length + 3 :=
      LumbreSpan.encodedSize_le h
    constructor
    · rintro payload hpayload
      obtain rfl := Option.some_inj.mp hpayload
      rw [Mem.load_length, UInt64.toNat_toUInt32]
      have hmod := Nat.mod_le b.pos.toNat (2 ^ 32)
      omega
    · intro hover
      unfold FinishResult.outcome at hover
      simp only [Option.isSome_some, if_true] at hover
      split_ifs at hover

/-! ## Runs -/

namespace System

variable {s : System} {clock : Clock}

/-- What holds of the finish of every well-formed span holds of every finish of a run. -/
lemma forall_log {Observes : Spsc → ℕ → Prop} {P : FinishResult → Prop}
    (hP : ∀ (fc : FinishCall) (rb : LumbreRingbuf), fc.span.WellFormed →
      fc.mpBuf.capacity = lumbreMsgpackBufSize → P (fc.result rb))
    {w : Worker} (hw : Worker.Start lumbreWlStaticTable w)
    (h : Reachable clock Event.Short Observes w s) : ∀ r ∈ s.log, P r := by
  induction h with
  | refl => exact fun r hr => absurd hr List.not_mem_nil
  | tail hrun hstep ih =>
      have hsafe := Worker.safe_of_reachable (worker_reachable hw hrun)
      have hsound := (readable_of_reachable hw hrun).sound
      rcases hstep.worker_cases with ⟨e, _, hworker, hlog | ⟨r, hlog, hfinished⟩⟩ | ⟨_, hlog⟩
      · rw [hlog]
        exact ih
      · rw [hlog]
        refine List.forall_mem_append.mpr ⟨ih, List.forall_mem_singleton.mpr ?_⟩
        obtain ⟨rb, fc, _, hspan, hbuf, hring, _, rfl⟩ :=
          (Worker.effect_of_step hsafe hworker).1.exists_finish hfinished
        obtain ⟨hwellFormed, hcapacity⟩ := hsound.finish hsafe hspan hring hbuf
        exact hP fc rb hwellFormed hcapacity
      · rw [hlog]
        exact ih

/-- **Payloads are close to the shortest.** In every run of the shipped module, with short strings,
and the daemon: for every finished span and every representation of it in MessagePack, a payload that
was handed to the ring is at most three bytes longer; and a span that was lost since it did not fit
into the msgpack buffer would not fit in that representation either, with three bytes to spare. -/
theorem payload_near_shortest {Observes : Spsc → ℕ → Prop} {w : Worker}
    (hw : Worker.Start lumbreWlStaticTable w) (h : Reachable clock Event.Short Observes w s)
    {r : FinishResult} (hr : r ∈ s.log) {bs : List UInt8} (hbs : decodeAll bs = some r.spanValue) :
    (∀ payload, r.handed = some payload → payload.length ≤ bs.length + 3) ∧
      (r.outcome = .overflowed → 16384 < bs.length + 3) :=
  forall_log (P := fun r => ∀ bs, decodeAll bs = some r.spanValue →
      (∀ payload, r.handed = some payload → payload.length ≤ bs.length + 3) ∧
        (r.outcome = .overflowed → 16384 < bs.length + 3))
    (fun _ _ hspan hcap _ hbs => FinishCall.near_shortest hspan hcap hbs) hw h r hr bs hbs

/-- The span of the query, in as few bytes as the format allows. -/
def queryBytes : List UInt8 :=
  0x89 :: 0xa1 :: ascii "t" ++ 0x03 :: 0xa3 :: ascii "tid" ++ 0xc4 :: 0x10 :: List.replicate 16 0 ++
    0xa3 :: ascii "sid" ++ 0x02 :: 0xa3 :: ascii "pid" ++ 0x01 :: 0xa1 :: ascii "s" ++
    0x01 :: 0xa1 :: ascii "d" ++ 0x03 :: 0xa1 :: ascii "q" ++ 0xa8 :: ascii "SELECT 1" ++
    0xa3 :: ascii "dbt" ++ 0xa3 :: ascii "pdo" ++ 0xa1 :: ascii "r" ++ [0x00]

/-- The payload of the query in a request with nested calls. -/
theorem payload_near_shortest_traced_request :
    ∃ s r payload, Reachable countingClock Event.Short Spsc.ObservesRecent Worker.shipped s ∧
      s.log.map (fun r => r.span.fields) = tracedSpans ∧ r ∈ s.log ∧
      decodeAll queryBytes = some r.spanValue ∧ r.handed = some payload ∧
      payload.length ≤ queryBytes.length + 3 := by
  obtain ⟨_, _, s, _, hopened, hsteps, _, _, hlog, haccepted, _⟩ :=
    exists_tracedRequest Event.Short ⟨by decide, by decide⟩ tracedCalls_short
  have hs := hopened.trans hsteps
  obtain ⟨r, hr, hfields⟩ : ∃ r ∈ s.log, r.span.fields = tracedSpans[1] := by
    apply List.mem_map.mp
    rw [hlog]
    exact List.getElem_mem _
  have hread : decodeAll queryBytes = some r.spanValue := by
    rw [FinishResult.spanValue, hfields]
    rfl
  obtain ⟨payload, hpayload⟩ :=
    ((readable_of_reachable Worker.start_shipped hs).log r hr).handed (haccepted r hr).1
  have hle := (payload_near_shortest Worker.start_shipped hs hr hread).1 payload hpayload
  exact ⟨s, r, payload, hs, hlog, hr, hread, hpayload, hle⟩

end System

end LumbreExt
