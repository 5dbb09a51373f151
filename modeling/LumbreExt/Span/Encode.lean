import LumbreExt.Msgpack.Encoding
import LumbreExt.Span.Finish

/-!
# A finished span decodes back to itself

* `LumbreSpan.fields` — what a recorded span says, as the daemon is to read it: the keys and values
  of its map, in order.
* `LumbreSpan.WellFormed` — what the callers guarantee of the payload: no `NULL` with a length, no
  length among the last five of its type.
* `lumbreSpanEncode_eq_packAll` — encoding packs one list of items, the header's and the fields'.
* `decodeAll_handed` — every payload that reaches `lumbre_ringbuf_write` is one map with those
  fields, whatever the buffer held before.
-/

namespace LumbreExt

open Lib Lib.MsgPack

/-! ## What a span says -/

/-- The fields every span has. -/
def LumbreSpan.commonFields (span : LumbreSpan) : List (List UInt8 × Scalar) :=
  [(ascii "t", .int span.type.toNat),
    (ascii "tid", .bin span.traceId.toList),
    (ascii "sid", .int span.spanId.toNat),
    (ascii "pid", .int span.parentId.toNat),
    (ascii "s", .int span.startNs.toNat),
    (ascii "d", .int span.durationNs.toNat)]

/-- The fields of the type. -/
def LumbreSpan.typeFields (span : LumbreSpan) : List (List UInt8 × Scalar) :=
  if span.type = lumbreSpanHttpIn then
    [(ascii "uri", .str (span.requestUri.bytes span.requestUriLen)),
      (ascii "mth", .str (span.method.bytes span.methodLen))]
  else if span.type = lumbreSpanHttpOut then
    [(ascii "url", .str (span.url.bytes span.urlLen)),
      (ascii "mth", .str (span.method.bytes span.methodLen)),
      (ascii "st", .int span.statusCode.toNat)]
  else if span.type = lumbreSpanDb then
    [(ascii "q", .str (span.query.bytes span.queryLen)),
      (ascii "dbt", .str (span.dbType.bytes span.dbTypeLen)),
      (ascii "r", .int span.rowsAffected.toNat)]
  else if span.type = lumbreSpanRedis ∨ span.type = lumbreSpanMemcached then
    [(ascii "cmd", .str (span.cacheCmd.bytes span.cacheCmdLen)),
      (ascii "k", .str (span.cacheKey.bytes span.cacheKeyLen))]
  else if span.type = lumbreSpanFileIo ∨ span.type = lumbreSpanSocket then
    [(ascii "url", .str (span.url.bytes span.urlLen))]
  else if span.type = lumbreSpanFunc then
    [(ascii "cls", .str (span.funcClass.bytes span.funcClassLen)),
      (ascii "fn", .str (span.funcName.bytes span.funcNameLen)),
      (ascii "f", .str (span.funcFile.bytes span.funcFileLen)),
      (ascii "l", .int span.funcLine.toNat)]
  else []

/-- The keys and values of a span's map. -/
def LumbreSpan.fields (span : LumbreSpan) : List (List UInt8 × Scalar) :=
  span.commonFields ++ span.typeFields

/-- The strings of a span, each with its length. -/
def LumbreSpan.strings (span : LumbreSpan) : List (BytePtr × UInt32) :=
  [(span.url, span.urlLen), (span.method, span.methodLen), (span.query, span.queryLen),
    (span.dbType, span.dbTypeLen), (span.cacheCmd, span.cacheCmdLen),
    (span.cacheKey, span.cacheKeyLen), (span.funcClass, span.funcClassLen),
    (span.funcName, span.funcNameLen), (span.funcFile, span.funcFileLen),
    (span.requestUri, span.requestUriLen)]

/-- The callers' guarantee on the payload. -/
def LumbreSpan.WellFormed (span : LumbreSpan) : Prop :=
  ∀ p ∈ span.strings, p.1.Valid p.2 ∧ p.2.toNat < 2 ^ 32 - 5

instance (span : LumbreSpan) : Decidable span.WellFormed :=
  inferInstanceAs (Decidable (∀ p ∈ span.strings, _))

/-! ## The calls, field by field -/

/-- A key-value call packs this field. -/
structure PackCall.Packs (c : PackCall) (field : List UInt8 × Scalar) : Prop where
  short : ∀ i ∈ c.items, i.Short
  represents : RepresentsPair (c.items.flatMap Item.bytes) (.str field.1, field.2)

/-- A pointer to a byte string, with its length, is read as that byte string. -/
lemma bytes_ofList {bs : List UInt8} {len : UInt32} (h : len.toNat = bs.length) :
    BytePtr.bytes (some (Mem.ofList bs)) len = bs := by
  rw [BytePtr.bytes, h]
  exact Mem.load_ofList bs

lemma represents_literal {s : String} {len : UInt32} (h : len.toNat = (ascii s).length) :
    Represents (Item.str (literal s) len).bytes (.str (ascii s)) := by
  have hvalid : (literal s).Valid len := fun _ => rfl
  have hrep := Item.represents_str hvalid
  rwa [literal, bytes_ofList h] at hrep

section packs

variable {s : String} {len : UInt32}

lemma packs_uintKv (h : len.toNat = (ascii s).length) (hlen : len.toNat < 2 ^ 32 - 5)
    (v : UInt64) : (PackCall.uintKv (literal s) len v).Packs (ascii s, .int v.toNat) := by
  refine ⟨?_, _, _, ?_, represents_literal h, Item.represents_uint v⟩
  · simpa [PackCall.items, Item.Short, Item.len] using hlen
  · simp [PackCall.items]

lemma packs_strKv (h : len.toNat = (ascii s).length) (hlen : len.toNat < 2 ^ 32 - 5)
    {val : BytePtr} {valLen : UInt32} (hval : val.Valid valLen ∧ valLen.toNat < 2 ^ 32 - 5) :
    (PackCall.strKv (literal s) len val valLen).Packs (ascii s, .str (val.bytes valLen)) := by
  refine ⟨?_, _, _, ?_, represents_literal h, Item.represents_str hval.1⟩
  · simpa [PackCall.items, Item.Short, Item.len] using ⟨hlen, hval.2⟩
  · simp [PackCall.items]

/-- The trace id is packed from the sixteen bytes of the span. -/
lemma packs_traceId (id : TraceId) :
    (PackCall.binKv (literal "tid") 3 id.ptr 16).Packs (ascii "tid", .bin id.toList) := by
  have hlength : (16 : UInt32).toNat = id.toList.length := id.length_toList.symm
  have hvalid : id.ptr.Valid 16 := fun _ => rfl
  have hrep := Item.represents_bin hvalid (by decide)
  rw [TraceId.ptr, bytes_ofList hlength] at hrep
  refine ⟨?_, _, _, ?_, represents_literal (show (3 : UInt32).toNat = (ascii "tid").length from rfl),
    hrep⟩
  · simp [PackCall.items, Item.Short, Item.len]
  · simp [PackCall.items, TraceId.ptr]

end packs

lemma packs_commonCalls (span : LumbreSpan) :
    List.Forall₂ PackCall.Packs (commonCalls span) span.commonFields := by
  refine .cons ?_ (.cons (packs_traceId span.traceId) (.cons ?_ (.cons ?_ (.cons ?_ (.cons ?_
    .nil)))))
  · rw [← UInt8.toNat_toUInt64]
    exact packs_uintKv rfl (by decide) _
  all_goals exact packs_uintKv rfl (by decide) _

lemma packs_typeCalls {span : LumbreSpan} (h : span.WellFormed) :
    List.Forall₂ PackCall.Packs (typeCalls span) span.typeFields := by
  have hstr : ∀ {s : String} {len : UInt32} {val : BytePtr} {valLen : UInt32},
      (val, valLen) ∈ span.strings → len.toNat = (ascii s).length → len.toNat < 2 ^ 32 - 5 →
      (PackCall.strKv (literal s) len val valLen).Packs (ascii s, .str (val.bytes valLen)) :=
    fun hmem hlen hshort => packs_strKv hlen hshort (h _ hmem)
  unfold typeCalls LumbreSpan.typeFields
  split_ifs
  · -- HTTP in
    refine .cons ?_ (.cons ?_ .nil)
    · exact hstr (by simp [LumbreSpan.strings]) rfl (by decide)
    · exact hstr (by simp [LumbreSpan.strings]) rfl (by decide)
  · -- HTTP out
    refine .cons ?_ (.cons ?_ (.cons ?_ .nil))
    · exact hstr (by simp [LumbreSpan.strings]) rfl (by decide)
    · exact hstr (by simp [LumbreSpan.strings]) rfl (by decide)
    · rw [← UInt16.toNat_toUInt64]
      exact packs_uintKv rfl (by decide) _
  · -- database
    refine .cons ?_ (.cons ?_ (.cons ?_ .nil))
    · exact hstr (by simp [LumbreSpan.strings]) rfl (by decide)
    · exact hstr (by simp [LumbreSpan.strings]) rfl (by decide)
    · rw [← UInt32.toNat_toUInt64]
      exact packs_uintKv rfl (by decide) _
  · -- Redis and Memcached
    refine .cons ?_ (.cons ?_ .nil)
    · exact hstr (by simp [LumbreSpan.strings]) rfl (by decide)
    · exact hstr (by simp [LumbreSpan.strings]) rfl (by decide)
  · -- file and socket
    exact .cons (hstr (by simp [LumbreSpan.strings]) rfl (by decide)) .nil
  · -- function
    refine .cons ?_ (.cons ?_ (.cons ?_ (.cons ?_ .nil)))
    · exact hstr (by simp [LumbreSpan.strings]) rfl (by decide)
    · exact hstr (by simp [LumbreSpan.strings]) rfl (by decide)
    · exact hstr (by simp [LumbreSpan.strings]) rfl (by decide)
    · rw [← UInt32.toNat_toUInt64]
      exact packs_uintKv rfl (by decide) _
  · exact .nil

/-- The announced count is the number of fields. -/
lemma toNat_fieldCount (span : LumbreSpan) :
    (lumbreSpanFieldCount span.type).toNat = (commonCalls span ++ typeCalls span).length := by
  unfold lumbreSpanFieldCount typeCalls
  split_ifs <;> rfl

/-- No key occurs twice. -/
lemma nodup_keys (span : LumbreSpan) : (span.fields.map Prod.fst).Nodup := by
  unfold LumbreSpan.fields LumbreSpan.commonFields LumbreSpan.typeFields
  split_ifs <;> simp only [List.map_append, List.map_cons, List.map_nil] <;> decide

/-! ## Encoding as packing items -/

/-- A sequence of checked packer calls packs the items of all of them. -/
lemma packOrFail_eq_packAll (cs : List PackCall) (b : LumbreMsgpackBuf) :
    packOrFail cs b = packAll (cs.flatMap PackCall.items) b := by
  induction cs generalizing b with
  | nil => rfl
  | cons c cs ih =>
      rw [packOrFail, List.flatMap_cons, packAll_append, c.run_eq, ih]
      rcases packAll_rc c.items b with h | h
      · have hnot : ¬ (packAll c.items b).1 < 0 := by omega
        rw [if_neg hnot, if_neg (not_not.mpr h)]
      · have hlt : (packAll c.items b).1 < 0 := by omega
        have hne : (packAll c.items b).1 ≠ 0 := by omega
        rw [if_pos hlt, if_pos hne, ← h]

/-- The items a span is encoded as. -/
def LumbreSpan.items (span : LumbreSpan) : List Item :=
  .map (lumbreSpanFieldCount span.type) ::
    (commonCalls span ++ typeCalls span).flatMap PackCall.items

/-- Encoding packs the span's items. -/
lemma lumbreSpanEncode_eq_packAll (span : LumbreSpan) (b : LumbreMsgpackBuf) :
    lumbreSpanEncode span b = packAll span.items b := by
  rw [lumbreSpanEncode, packOrFail_eq_packAll]
  rfl

lemma packs_calls {span : LumbreSpan} (h : span.WellFormed) :
    List.Forall₂ PackCall.Packs (commonCalls span ++ typeCalls span) span.fields :=
  List.rel_append (packs_commonCalls span) (packs_typeCalls h)

/-- Every item of a well-formed span has a length its space check can add. -/
lemma LumbreSpan.WellFormed.short {span : LumbreSpan} (h : span.WellFormed) :
    ∀ i ∈ span.items, i.Short := by
  intro i hi
  rcases List.mem_cons.mp hi with rfl | hi
  · exact show 0 < 2 ^ 32 - 5 by decide
  · obtain ⟨c, hc, hi⟩ := List.mem_flatMap.mp hi
    have hshort := (List.forall₂_and_left _ _).mp
      ((packs_calls h).imp fun _ _ hpacks => ⟨hpacks.short, hpacks⟩)
    exact hshort.1 c hc i hi

/-- The bytes of a span are one map with its fields. -/
lemma decodeAll_items {span : LumbreSpan} (h : span.WellFormed) :
    decodeAll (span.items.flatMap Item.bytes) =
        some (.map (span.fields.map fun f => (.scalar (.str f.1), .scalar f.2))) ∧
      ∃ rest, readToken (span.items.flatMap Item.bytes) =
        some (.map span.fields.length, rest) := by
  have hpacks := packs_calls h
  have hlength : span.fields.length = (lumbreSpanFieldCount span.type).toNat := by
    rw [toNat_fieldCount, hpacks.length_eq]
  have hsmall : (lumbreSpanFieldCount span.type).toNat < 2 ^ 16 := by
    unfold lumbreSpanFieldCount
    split_ifs <;> decide
  obtain ⟨parts, hparts⟩ : ∃ parts, parts = (commonCalls span ++ typeCalls span).map
      fun c => c.items.flatMap Item.bytes := ⟨_, rfl⟩
  have hbytes : span.items.flatMap Item.bytes =
      (Item.map (lumbreSpanFieldCount span.type)).bytes ++ parts.flatten := by
    rw [LumbreSpan.items, List.flatMap_cons, List.flatMap_assoc, List.flatMap_def, hparts]
  have hpairs : List.Forall₂ RepresentsPair parts
      (span.fields.map fun f => (Scalar.str f.1, f.2)) := by
    rw [hparts, List.forall₂_map_left_iff, List.forall₂_map_right_iff]
    exact hpacks.imp fun _ _ hpacks => hpacks.represents
  have hcount : (lumbreSpanFieldCount span.type).toNat = parts.length := by
    rw [hparts, List.length_map, toNat_fieldCount]
  have hhead : ∀ rest, readToken ((Item.map (lumbreSpanFieldCount span.type)).bytes ++ rest) =
      some (.map parts.length, rest) := by
    intro rest
    rw [← hcount, Item.readToken_map, Nat.mod_eq_of_lt hsmall]
  refine ⟨?_, parts.flatten, ?_⟩
  · rw [hbytes, decodeAll_map hhead hpairs, List.map_map]
    rfl
  · rw [hbytes, hlength, hcount]
    exact hhead _

/-! ## Finishing -/

lemma LumbreSpan.toNat_truncatedQueryLen_le (span : LumbreSpan) (maxQueryLen : UInt32) :
    (span.truncatedQueryLen maxQueryLen).toNat ≤ span.queryLen.toNat := by
  unfold LumbreSpan.truncatedQueryLen
  split_ifs with h
  · exact Nat.le_of_lt (UInt32.lt_iff_toNat_lt.mp h.2.2)
  · exact Nat.le_refl _

/-- Recording keeps the guarantee: truncation only shortens the query. -/
lemma LumbreSpan.WellFormed.recorded {span : LumbreSpan} (h : span.WellFormed)
    (maxQueryLen : UInt32) (clockNs : UInt64) :
    (span.recorded maxQueryLen clockNs).WellFormed := by
  have hle := span.toNat_truncatedQueryLen_le maxQueryLen
  have hquery : span.query.Valid span.queryLen ∧ span.queryLen.toNat < 2 ^ 32 - 5 :=
    h (span.query, span.queryLen) (by simp [LumbreSpan.strings])
  obtain ⟨hvalid, hshort⟩ := hquery
  have hnew : span.query.Valid (span.truncatedQueryLen maxQueryLen) ∧
      (span.truncatedQueryLen maxQueryLen).toNat < 2 ^ 32 - 5 :=
    ⟨fun hpos => hvalid (Nat.lt_of_lt_of_le hpos hle), Nat.lt_of_le_of_lt hle hshort⟩
  unfold LumbreSpan.WellFormed LumbreSpan.strings at h ⊢
  simp only [List.forall_mem_cons, LumbreSpan.recorded, LumbreSpan.timed] at h ⊢
  obtain ⟨hurl, hmethod, _, hrest⟩ := h
  exact ⟨hurl, hmethod, hnew, hrest⟩

/-- Encoding a well-formed span from position `0` leaves the bytes of its items. -/
lemma load_encode {span : LumbreSpan} {mpBuf b : LumbreMsgpackBuf} (hspan : span.WellFormed)
    (hcap : mpBuf.capacity.toNat < 2 ^ 32)
    (h : lumbreSpanEncode span (lumbreMsgpackReset mpBuf) = (0, b)) :
    b.buf.load 0 b.pos.toUInt32.toNat = span.items.flatMap Item.bytes := by
  have hpack : packAll span.items (lumbreMsgpackReset mpBuf) = (0, b) := by
    rw [← lumbreSpanEncode_eq_packAll, h]
  have hpos : (lumbreMsgpackReset mpBuf).pos ≤ (lumbreMsgpackReset mpBuf).capacity :=
    UInt64.zero_le
  have hfits : Fits (lumbreMsgpackReset mpBuf).capacity.toNat (lumbreMsgpackReset mpBuf).pos.toNat
      span.items := fits_of_short (by change mpBuf.capacity.toNat ≤ _; omega)
        (UInt64.le_iff_toNat_le.mp hpos) hspan.short
  have hin := (packAll_inBounds_iff hpos span.items).mpr hfits
  rw [hpack] at hin
  have hsum : (lumbreMsgpackReset mpBuf).pos.toNat + (span.items.map Item.size).sum < 2 ^ 64 := by
    rw [← hin.pos_eq rfl]
    exact b.pos.toNat_lt
  have hload := packAll_load (congrArg Prod.fst hpack) hsum
  rw [hpack] at hload
  have hlt : b.pos.toNat < 2 ^ 32 :=
    Nat.lt_of_le_of_lt (UInt64.le_iff_toNat_le.mp hin.pos_le) hcap
  have hcast : b.pos.toUInt32.toNat = b.pos.toNat := by
    rw [UInt64.toNat_toUInt32]
    exact Nat.mod_eq_of_lt hlt
  rw [hcast]
  exact hload.2

/-- A payload that is handed over is the bytes of the recorded span. -/
lemma handed_eq {span : LumbreSpan} {rb : LumbreRingbuf} {mpBuf : LumbreMsgpackBuf}
    {ctx : LumbreContext} {minDurationNs clockNs : UInt64} {maxQueryLen : UInt32}
    {payload : List UInt8} (hspan : span.WellFormed) (hcap : mpBuf.capacity.toNat < 2 ^ 32)
    (h : (lumbreSpanFinish span rb mpBuf ctx minDurationNs maxQueryLen clockNs).handed =
      some payload) :
    payload = (span.recorded maxQueryLen clockNs).items.flatMap Item.bytes := by
  rcases lumbreSpanFinish_cases span rb mpBuf ctx minDurationNs clockNs maxQueryLen with
    ⟨_, hfinish⟩ | ⟨_, rc, b, hencode, ⟨_, hfinish⟩ | ⟨hrc, hfinish⟩⟩
  · rw [hfinish] at h
    exact absurd h.symm (Option.some_ne_none payload)
  · rw [hfinish] at h
    exact absurd h.symm (Option.some_ne_none payload)
  · have hzero : rc = 0 := by
      rw [lumbreSpanEncode_eq_packAll] at hencode
      have hrcs := packAll_rc (span.recorded maxQueryLen clockNs).items (lumbreMsgpackReset mpBuf)
      rw [hencode] at hrcs
      omega
    rw [hzero] at hencode
    rw [hfinish, load_encode (hspan.recorded maxQueryLen clockNs) hcap hencode] at h
    exact (Option.some.inj h).symm

/-- **A finished span decodes back to itself.** For any contents of the payload the callers
guarantee and any state of the buffer, what reaches `lumbre_ringbuf_write` is exactly one map: its
entries are the fields of the recorded span, its header announces as many, and no key repeats. -/
theorem decodeAll_handed {span : LumbreSpan} {rb : LumbreRingbuf} {mpBuf : LumbreMsgpackBuf}
    {ctx : LumbreContext} {minDurationNs clockNs : UInt64} {maxQueryLen : UInt32}
    {payload : List UInt8} (hspan : span.WellFormed) (hcap : mpBuf.capacity.toNat < 2 ^ 32)
    (h : (lumbreSpanFinish span rb mpBuf ctx minDurationNs maxQueryLen clockNs).handed =
      some payload) :
    decodeAll payload = some (.map ((span.recorded maxQueryLen clockNs).fields.map
        fun f => (.scalar (.str f.1), .scalar f.2))) ∧
      (∃ rest, readToken payload =
        some (.map (span.recorded maxQueryLen clockNs).fields.length, rest)) ∧
      ((span.recorded maxQueryLen clockNs).fields.map Prod.fst).Nodup := by
  obtain ⟨hdecode, hread⟩ := decodeAll_items (hspan.recorded maxQueryLen clockNs)
  rw [← handed_eq hspan hcap h] at hdecode hread
  exact ⟨hdecode, hread, nodup_keys _⟩

/-- A database span with a query of 8 bytes. -/
def querySpan : LumbreSpan :=
  lumbreSpanSetDb (lumbreSpanStart lumbreSpanDb ⟨zeroTraceId, 1, 1, 2, 1, 0⟩ 100).1
    (literal "SELECT 1") 8 (literal "pdo") 3 0 2048

/-- The database span, finished with a maximum query length of 6 over a used buffer. -/
theorem decodeAll_handed_querySpan :
    ∃ payload,
      (lumbreSpanFinish querySpan ⟨⟨0, 0, 64, 0, 0, 0, 0, 0⟩, fun _ => 0, 64, 63, 0, 3, 128, [], 0⟩
        ⟨fun _ => 0xAA, 16384, 77, []⟩ ⟨zeroTraceId, 1, 2, 3, 1, 0⟩ 0 6 350).handed =
          some payload ∧
      decodeAll payload = some (.map
        [(.scalar (.str (ascii "t")), .scalar (.int 3)),
          (.scalar (.str (ascii "tid")), .scalar (.bin (List.replicate 16 0))),
          (.scalar (.str (ascii "sid")), .scalar (.int 2)),
          (.scalar (.str (ascii "pid")), .scalar (.int 1)),
          (.scalar (.str (ascii "s")), .scalar (.int 100)),
          (.scalar (.str (ascii "d")), .scalar (.int 250)),
          (.scalar (.str (ascii "q")), .scalar (.str (ascii "SELECT"))),
          (.scalar (.str (ascii "dbt")), .scalar (.str (ascii "pdo"))),
          (.scalar (.str (ascii "r")), .scalar (.int 0))]) := by
  obtain ⟨payload, hpayload⟩ := Option.isSome_iff_exists.mp
    (show (lumbreSpanFinish querySpan
        ⟨⟨0, 0, 64, 0, 0, 0, 0, 0⟩, fun _ => 0, 64, 63, 0, 3, 128, [], 0⟩
        ⟨fun _ => 0xAA, 16384, 77, []⟩ ⟨zeroTraceId, 1, 2, 3, 1, 0⟩ 0 6 350).handed.isSome from rfl)
  refine ⟨payload, hpayload, ?_⟩
  rw [(decodeAll_handed (by decide) (by decide) hpayload).1]
  rfl

end LumbreExt
