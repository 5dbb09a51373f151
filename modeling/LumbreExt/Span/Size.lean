import LumbreExt.Msgpack.Tokens
import LumbreExt.Span.Encode
import Mathlib.Algebra.Order.BigOperators.Group.List
import Mathlib.Algebra.Order.Ring.Nat

/-!
# The encoded size of a span

* `LumbreSpan.encodedSize` — the bytes of a span's map header, keys and values in the forms the
  packer has for them; it is the size of the items that are packed (`encodedSize_eq`).
* `EncodeCall` — the three kinds of call an encoding makes.
* `lumbreSpanEncode_iff` — encoding fails exactly when the span does not fit, and what it leaves
  does not depend on the buffer.
-/

namespace LumbreExt

open Lib Lib.MsgPack

/-! ## The size -/

/-- The bytes of a key and its value. -/
def fieldSize (field : List UInt8 × Scalar) : ℕ :=
  tokenSize (.scalar (.str field.1)) + tokenSize (.scalar field.2)

/-- The bytes a span is encoded as: a map header, and the keys and values of its fields. -/
def LumbreSpan.encodedSize (span : LumbreSpan) : ℕ :=
  tokenSize (.map span.fields.length) + (span.fields.map fieldSize).sum

/-! ## The calls -/

/-- The kinds of call an encoding makes: an integer, the trace id, or a string of the span. -/
inductive EncodeCall (span : LumbreSpan) : PackCall → Prop
  | uint (s : String) (len : UInt32) (v : UInt64) : EncodeCall span (.uintKv (literal s) len v)
  | traceId : EncodeCall span (.binKv (literal "tid") 3 span.traceId.ptr 16)
  | str {s : String} {len : UInt32} {val : BytePtr} {valLen : UInt32}
      (h : (val, valLen) ∈ span.strings) : EncodeCall span (.strKv (literal s) len val valLen)

lemma encodeCall_of_mem {span : LumbreSpan} {c : PackCall}
    (hc : c ∈ commonCalls span ++ typeCalls span) : EncodeCall span c := by
  rcases List.mem_append.mp hc with hcommon | htype
  · simp only [commonCalls, List.mem_cons, List.not_mem_nil, or_false] at hcommon
    rcases hcommon with rfl | rfl | rfl | rfl | rfl | rfl
    · exact .uint _ _ _
    · exact .traceId
    all_goals exact .uint _ _ _
  · unfold typeCalls at htype
    split_ifs at htype <;> simp only [List.mem_cons, List.not_mem_nil, or_false] at htype
    · -- HTTP in
      rcases htype with rfl | rfl
      · exact .str (by simp [LumbreSpan.strings])
      · exact .str (by simp [LumbreSpan.strings])
    · -- HTTP out
      rcases htype with rfl | rfl | rfl
      · exact .str (by simp [LumbreSpan.strings])
      · exact .str (by simp [LumbreSpan.strings])
      · exact .uint _ _ _
    · -- database
      rcases htype with rfl | rfl | rfl
      · exact .str (by simp [LumbreSpan.strings])
      · exact .str (by simp [LumbreSpan.strings])
      · exact .uint _ _ _
    · -- Redis and Memcached
      rcases htype with rfl | rfl
      · exact .str (by simp [LumbreSpan.strings])
      · exact .str (by simp [LumbreSpan.strings])
    · -- file and socket
      obtain rfl := htype
      exact .str (by simp [LumbreSpan.strings])
    · -- function
      rcases htype with rfl | rfl | rfl | rfl
      · exact .str (by simp [LumbreSpan.strings])
      · exact .str (by simp [LumbreSpan.strings])
      · exact .str (by simp [LumbreSpan.strings])
      · exact .uint _ _ _

/-- No item of a well-formed span's calls is a map header, and each can be read back. -/
lemma LumbreSpan.WellFormed.callItems {span : LumbreSpan} (h : span.WellFormed) :
    ∀ c ∈ commonCalls span ++ typeCalls span, ∀ i ∈ c.items, i.Valid ∧ i.Representable := by
  have hliteral : ∀ (s : String) (len : UInt32),
      (Item.str (literal s) len).Valid ∧ (Item.str (literal s) len).Representable :=
    fun s len => ⟨fun _ => rfl, trivial⟩
  intro c hc i hi
  cases encodeCall_of_mem hc with
  | uint s len v =>
      rcases List.mem_pair.mp hi with rfl | rfl
      · exact hliteral s len
      · exact ⟨trivial, trivial⟩
  | traceId =>
      rcases List.mem_pair.mp hi with rfl | rfl
      · exact hliteral "tid" 3
      · exact ⟨fun _ => rfl, show 16 ≤ 0xFFFF by decide⟩
  | str hmem =>
      rcases List.mem_pair.mp hi with rfl | rfl
      · exact hliteral _ _
      · exact ⟨(h _ hmem).1, trivial⟩

/-- Every item of a well-formed span can be read back, and checked for space. -/
lemma LumbreSpan.WellFormed.items {span : LumbreSpan} (h : span.WellFormed) :
    ∀ i ∈ span.items, i.Valid ∧ i.Short ∧ i.Representable := by
  intro i hi
  have hshort := h.short i hi
  rcases List.mem_cons.mp hi with rfl | hi
  · refine ⟨trivial, hshort, ?_⟩
    change (lumbreSpanFieldCount span.type).toNat ≤ 0xFFFF
    unfold lumbreSpanFieldCount
    split_ifs <;> decide
  · obtain ⟨c, hc, hi⟩ := List.mem_flatMap.mp hi
    obtain ⟨hvalid, hrepresentable⟩ := h.callItems c hc i hi
    exact ⟨hvalid, hshort, hrepresentable⟩

/-- What represents a key and a value is read as the two. -/
lemma readTokens_of_representsPair {bs : List UInt8} {e : Scalar × Scalar}
    (h : RepresentsPair bs e) : readTokens bs = some [.scalar e.1, .scalar e.2] := by
  obtain ⟨key, value, rfl, hkey, hvalue⟩ := h
  have hread := hvalue []
  rw [List.append_nil] at hread
  rw [readTokens_of_readToken (hkey value), readTokens_of_readToken hread]
  rfl

/-- A call that packs a field takes up the size of the field. -/
lemma PackCall.Packs.size_eq {c : PackCall} {field : List UInt8 × Scalar} (h : c.Packs field)
    (hitems : ∀ i ∈ c.items, i.Valid ∧ i.Representable) :
    (c.items.map Item.size).sum = fieldSize field := by
  have hread : readTokens (c.items.flatMap Item.bytes) = some (c.items.map Item.decoded) := by
    apply readTokens_flatMap
    intro i hi rest
    obtain ⟨hvalid, hrepresentable⟩ := hitems i hi
    exact Item.readToken_bytes hvalid (Item.Representable.not_unsupported hrepresentable) rest
  rw [readTokens_of_representsPair h.represents, Option.some.injEq] at hread
  have hsize : c.items.map Item.size = (c.items.map Item.decoded).map tokenSize := by
    rw [List.map_map]
    apply List.map_congr_left
    intro i hi
    obtain ⟨hvalid, hrepresentable⟩ := hitems i hi
    have hsupported := Item.Representable.not_unsupported hrepresentable
    rw [Function.comp_apply, (Item.decoded_eq_token_iff hsupported).mpr hrepresentable,
      tokenSize_token hvalid]
  rw [hsize, ← hread]
  rfl

/-- The calls of the fields take up their sizes. -/
lemma sum_size_calls {cs : List PackCall} {fields : List (List UInt8 × Scalar)}
    (h : List.Forall₂ PackCall.Packs cs fields)
    (hitems : ∀ c ∈ cs, ∀ i ∈ c.items, i.Valid ∧ i.Representable) :
    ((cs.flatMap PackCall.items).map Item.size).sum = (fields.map fieldSize).sum := by
  induction h with
  | nil => rfl
  | @cons c field cs fields hpacks _ ih =>
      rw [List.flatMap_cons, List.map_append, List.sum_append,
        hpacks.size_eq (hitems c List.mem_cons_self),
        ih fun c' hc' => hitems c' (List.mem_cons_of_mem c hc'), List.map_cons, List.sum_cons]

/-- **The items of a well-formed span take up its encoded size.** -/
lemma encodedSize_eq {span : LumbreSpan} (h : span.WellFormed) :
    (span.items.map Item.size).sum = span.encodedSize := by
  have hpacks := packs_calls h
  have hcount : (lumbreSpanFieldCount span.type).toNat = span.fields.length := by
    rw [toNat_fieldCount, hpacks.length_eq]
  have hmap : (Item.map (lumbreSpanFieldCount span.type)).size =
      tokenSize (.map span.fields.length) := by
    rw [← hcount]
    exact (tokenSize_token (i := .map (lumbreSpanFieldCount span.type)) trivial).symm
  rw [LumbreSpan.items, List.map_cons, List.sum_cons, hmap, sum_size_calls hpacks h.callItems]
  rfl

/-- It is far from the end of the address space: there are at most 21 items. -/
lemma encodedSize_lt {span : LumbreSpan} (h : span.WellFormed) : span.encodedSize < 2 ^ 64 := by
  have hsizes : ∀ n ∈ span.items.map Item.size, n ≤ 2 ^ 32 := by
    intro n hn
    obtain ⟨i, hi, rfl⟩ := List.mem_map.mp hn
    have hsum := (h.short i hi).sum_lt
    have hcontent := i.contentSize_le_len
    rw [Item.size]
    omega
  have hlength : (span.items.map Item.size).length ≤ 21 := by
    unfold LumbreSpan.items commonCalls typeCalls
    split_ifs <;> simp [PackCall.items]
  have htotal : (span.items.map Item.size).sum ≤ (span.items.map Item.size).length * 2 ^ 32 :=
    List.sum_le_card_nsmul _ _ hsizes
  rw [encodedSize_eq h] at htotal
  omega

/-! ## Encoding -/

section encode

variable {span : LumbreSpan}

lemma lumbreSpanEncode_rc_iff (hspan : span.WellFormed) (b : LumbreMsgpackBuf) :
    (lumbreSpanEncode span (lumbreMsgpackReset b)).1 = 0 ↔
      span.encodedSize ≤ b.capacity.toNat := by
  have hlt := encodedSize_lt hspan
  have hzero : (lumbreMsgpackReset b).pos.toNat = 0 := rfl
  have hiff := packAll_rc_iff hspan.items (b := lumbreMsgpackReset b) UInt64.zero_le
    (by rw [encodedSize_eq hspan, hzero]; omega)
  rw [encodedSize_eq hspan, hzero, Nat.zero_add] at hiff
  rw [lumbreSpanEncode_eq_packAll]
  exact hiff

/-- An encoding that succeeds ends at the encoded size, with the bytes of the items before it. -/
lemma lumbreSpanEncode_written (hspan : span.WellFormed) {b : LumbreMsgpackBuf}
    (h : (lumbreSpanEncode span (lumbreMsgpackReset b)).1 = 0) :
    (lumbreSpanEncode span (lumbreMsgpackReset b)).2.pos.toNat = span.encodedSize ∧
      (lumbreSpanEncode span (lumbreMsgpackReset b)).2.written =
        span.items.flatMap Item.bytes := by
  have hzero : (lumbreMsgpackReset b).pos.toNat = 0 := rfl
  have hlt : (lumbreMsgpackReset b).pos.toNat + (span.items.map Item.size).sum < 2 ^ 64 := by
    rw [encodedSize_eq hspan, hzero, Nat.zero_add]
    exact encodedSize_lt hspan
  rw [lumbreSpanEncode_eq_packAll] at h ⊢
  obtain ⟨hpos, hload⟩ := packAll_load h hlt
  rw [encodedSize_eq hspan, hzero, Nat.zero_add] at hpos
  exact ⟨hpos, hload⟩

/-- **Encoding fails exactly when the span does not fit.** For every well-formed span and any two
buffers, reset to position `0`: it succeeds exactly when the encoded size is at most the capacity,
and then ends there; the bytes are the same in both buffers; and what succeeds in one succeeds in
every larger one. -/
theorem lumbreSpanEncode_iff (hspan : span.WellFormed) (b b' : LumbreMsgpackBuf) :
    ((lumbreSpanEncode span (lumbreMsgpackReset b)).1 = 0 ↔
        span.encodedSize ≤ b.capacity.toNat) ∧
      ((lumbreSpanEncode span (lumbreMsgpackReset b)).1 = 0 →
        (lumbreSpanEncode span (lumbreMsgpackReset b)).2.pos.toNat = span.encodedSize) ∧
      ((lumbreSpanEncode span (lumbreMsgpackReset b)).1 = 0 →
        (lumbreSpanEncode span (lumbreMsgpackReset b')).1 = 0 →
        (lumbreSpanEncode span (lumbreMsgpackReset b)).2.written =
          (lumbreSpanEncode span (lumbreMsgpackReset b')).2.written) ∧
      ((lumbreSpanEncode span (lumbreMsgpackReset b)).1 = 0 → b.capacity ≤ b'.capacity →
        (lumbreSpanEncode span (lumbreMsgpackReset b')).1 = 0) := by
  refine ⟨lumbreSpanEncode_rc_iff hspan b, ?_, ?_, ?_⟩
  · intro h
    exact (lumbreSpanEncode_written hspan h).1
  · intro h h'
    rw [(lumbreSpanEncode_written hspan h).2, (lumbreSpanEncode_written hspan h').2]
  · intro h hle
    rw [lumbreSpanEncode_rc_iff hspan] at h ⊢
    exact le_trans h (UInt64.le_iff_toNat_le.mp hle)

end encode

/-- The database span takes up 64 bytes: a buffer of 63 is too small, and one of 64 ends up with the
bytes of a large used one. -/
theorem lumbreSpanEncode_iff_querySpan :
    (lumbreSpanEncode querySpan (lumbreMsgpackReset ⟨fun _ => 0, 63, 0, []⟩)).1 ≠ 0 ∧
      (lumbreSpanEncode querySpan (lumbreMsgpackReset ⟨fun _ => 0, 64, 0, []⟩)).2.written =
        (lumbreSpanEncode querySpan
          (lumbreMsgpackReset ⟨fun _ => 0xAA, 16384, 77, []⟩)).2.written := by
  have hspan : querySpan.WellFormed := by decide
  have hsize : querySpan.encodedSize = 64 := by decide
  have hsmall := lumbreSpanEncode_iff hspan ⟨fun _ => 0, 63, 0, []⟩ ⟨fun _ => 0, 63, 0, []⟩
  have hexact := lumbreSpanEncode_iff hspan ⟨fun _ => 0, 64, 0, []⟩ ⟨fun _ => 0xAA, 16384, 77, []⟩
  rw [hsize] at hsmall hexact
  have hfits := hexact.1.mpr (by decide)
  refine ⟨fun h => absurd (hsmall.1.mp h) (by decide), ?_⟩
  exact hexact.2.2.1 hfits (hexact.2.2.2 hfits (by decide))

end LumbreExt
