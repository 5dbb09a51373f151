import LumbreExt.Lib.MsgPack
import LumbreExt.Msgpack.Bounds

/-!
# What the packer's bytes mean

Each item, read by the MessagePack reader, is the token it stands for: `represents_uint`,
`represents_str`, `represents_bin`, `readToken_map`. One case for each header form, with the width
boundary that selects it. `packAll_load` puts them together: after a sequence of packer calls that
all succeed, the buffer holds the items' bytes one after the other.
-/

namespace LumbreExt

open Lib Lib.MsgPack

/-- The bytes a packer copies. -/
def BytePtr.bytes (ptr : BytePtr) (len : UInt32) : List UInt8 :=
  ptr.read len.toNat

/-- A pointer that may be handed over with a length: not `NULL`, unless there is nothing to read. -/
def BytePtr.Valid (ptr : BytePtr) (len : UInt32) : Prop :=
  0 < len.toNat → ptr.isSome

instance (ptr : BytePtr) (len : UInt32) : Decidable (ptr.Valid len) :=
  inferInstanceAs (Decidable (_ → _))

lemma BytePtr.Valid.bytes_length {ptr : BytePtr} {len : UInt32} (h : ptr.Valid len) :
    (ptr.bytes len).length = len.toNat := by
  cases ptr with
  | none =>
      have hzero : ¬ 0 < len.toNat := fun hpos => Bool.false_ne_true (h hpos)
      simp only [BytePtr.bytes, BytePtr.read, List.length_nil]
      omega
  | some m => exact Mem.load_length m 0 len.toNat

lemma contentChunks_flatten (ptr : BytePtr) (len : UInt32) :
    (contentChunks ptr len).flatten = ptr.bytes len := by
  cases ptr with
  | none => rfl
  | some m =>
      simp only [contentChunks, BytePtr.bytes, BytePtr.read]
      split_ifs with hlen
      · simp
      · have hzero : len.toNat = 0 := by
          rw [gt_iff_lt, UInt32.lt_iff_toNat_lt, UInt32.toNat_zero] at hlen
          omega
        rw [hzero]
        rfl

/-! ## The shapes of header -/

section shapes

variable {b : UInt8} {c : List UInt8} {width : ℕ}

/-- A header byte and a number. -/
lemma readToken_chunks_number {v : ℕ} {mk : ℕ → Token} (h : header b = .number width mk)
    (hc : c = beBytes width v) (hv : v < 256 ^ width) (rest : List UInt8) :
    readToken ([[b], c].flatten ++ rest) = some (mk v, rest) := by
  have hflatten : [[b], c].flatten ++ rest = b :: (c ++ rest) := by simp
  rw [hflatten, hc]
  exact readToken_number h hv

/-- A header byte, a length and the content. -/
lemma readToken_chunks_sized {cs : List (List UInt8)} {bs : List UInt8}
    {mk : List UInt8 → Token} (h : header b = .sized width 0 mk) (hcs : cs.flatten = bs)
    (hc : c = beBytes width bs.length) (hlen : bs.length < 256 ^ width) (rest : List UInt8) :
    readToken (([[b], c] ++ cs).flatten ++ rest) = some (mk bs, rest) := by
  have hflatten : ([[b], c] ++ cs).flatten ++ rest = b :: (c ++ (cs.flatten ++ rest)) := by simp
  rw [hflatten, hc, hcs]
  exact readToken_sized h hlen

end shapes

/-! ## The four packers -/

namespace Item

/-- A map header announces its count modulo `2 ^ 16`. -/
lemma readToken_map (count : UInt32) (rest : List UInt8) :
    readToken ((Item.map count).bytes ++ rest) = some (.map (count.toNat % 2 ^ 16), rest) := by
  simp only [bytes, chunks, head, content, List.append_nil]
  split_ifs with hfix
  · have hle : count.toNat ≤ 15 := UInt32.le_iff_toNat_le.mp hfix
    have htag : (0x80 ||| count).toNat = 0x80 + count.toNat :=
      toNat_tag_or (t := 0x80) (a := 8) (i := 4) rfl (by omega)
    have hbyte : (0x80 ||| count).toUInt8.toNat = 0x80 + count.toNat := by
      rw [UInt32.toNat_toUInt8, htag]
      omega
    have hheader := header_fixmap (b := (0x80 ||| count).toUInt8) (by omega) (by omega)
    rw [hbyte, Nat.add_sub_cancel_left] at hheader
    rw [Nat.mod_eq_of_lt (show count.toNat < 2 ^ 16 by omega)]
    exact readToken_immediate hheader
  · have hlt : count.toNat % 2 ^ 16 < 2 ^ 16 := Nat.mod_lt _ (by decide)
    refine readToken_chunks_number (show header 0xde = .number 2 .map from rfl) ?_ hlt rest
    rw [lumbreStore16, UInt32.toNat_toUInt16]
    rfl

/-- An integer is read as its value. -/
lemma represents_uint (val : UInt64) : Represents (Item.uint val).bytes (.int val.toNat) := by
  intro rest
  simp only [bytes, chunks, head, content, List.append_nil]
  split_ifs with h₁ h₂ h₃ h₄
  · have hlt : val.toNat < 128 := UInt64.lt_iff_toNat_lt.mp h₁
    have hbyte : val.toUInt8.toNat = val.toNat := by
      rw [UInt64.toNat_toUInt8]
      omega
    have hheader := header_fixint (b := val.toUInt8) (by omega)
    rw [hbyte] at hheader
    exact readToken_immediate hheader
  · have hle : val.toNat ≤ 0xFF := UInt64.le_iff_toNat_le.mp h₂
    exact readToken_chunks_number (show header 0xcc = .number 1 intToken from rfl) rfl (by omega) rest
  · have hle : val.toNat ≤ 0xFFFF := UInt64.le_iff_toNat_le.mp h₃
    have hcast : val.toUInt16.toNat = val.toNat := by
      rw [UInt64.toNat_toUInt16]
      omega
    refine readToken_chunks_number (show header 0xcd = .number 2 intToken from rfl) ?_
      (by omega) rest
    rw [lumbreStore16, hcast]
    rfl
  · have hle : val.toNat ≤ 0xFFFFFFFF := UInt64.le_iff_toNat_le.mp h₄
    have hcast : val.toUInt32.toNat = val.toNat := by
      rw [UInt64.toNat_toUInt32]
      omega
    refine readToken_chunks_number (show header 0xce = .number 4 intToken from rfl) ?_
      (by omega) rest
    rw [lumbreStore32, hcast]
    rfl
  · exact readToken_chunks_number (show header 0xcf = .number 8 intToken from rfl) rfl
      val.toNat_lt rest

/-- A string is read as its bytes. -/
lemma represents_str {ptr : BytePtr} {len : UInt32} (hvalid : ptr.Valid len) :
    Represents (Item.str ptr len).bytes (.str (ptr.bytes len)) := by
  intro rest
  have hlength := hvalid.bytes_length
  have hcontent := contentChunks_flatten ptr len
  simp only [bytes, chunks, head, content]
  split_ifs with h₁ h₂
  · have hlt : len.toNat < 32 := UInt32.lt_iff_toNat_lt.mp h₁
    have htag : (0xa0 ||| len).toNat = 0xa0 + len.toNat :=
      toNat_tag_or (t := 0xa0) (a := 5) (i := 5) rfl (by omega)
    have hbyte : (0xa0 ||| len).toUInt8.toNat = 0xa0 + len.toNat := by
      rw [UInt32.toNat_toUInt8, htag]
      omega
    have hheader := header_fixstr (b := (0xa0 ||| len).toUInt8) (by omega) (by omega)
    rw [hbyte, Nat.add_sub_cancel_left] at hheader
    rw [List.flatten_append, hcontent]
    exact readToken_content hheader hlength
  · have hle : len.toNat ≤ 0xFFFF := UInt32.le_iff_toNat_le.mp h₂
    have hcast : len.toUInt16.toNat = len.toNat := by
      rw [UInt32.toNat_toUInt16]
      omega
    refine readToken_chunks_sized (show header 0xda = .sized 2 0 strToken from rfl)
      hcontent ?_ (by omega) rest
    rw [lumbreStore16, hcast, hlength]
    rfl
  · have hlt : len.toNat < 2 ^ 32 := len.toNat_lt
    refine readToken_chunks_sized (show header 0xdb = .sized 4 0 strToken from rfl)
      hcontent ?_ (by omega) rest
    rw [hlength]
    rfl

/-- Binary data the subset has a form for is read as its bytes. -/
lemma represents_bin {ptr : BytePtr} {len : UInt32} (hvalid : ptr.Valid len)
    (hlen : len.toNat ≤ 0xFFFF) : Represents (Item.bin ptr len).bytes (.bin (ptr.bytes len)) := by
  intro rest
  have hlength := hvalid.bytes_length
  have hcontent := contentChunks_flatten ptr len
  simp only [bytes, chunks, head, content]
  split_ifs with h₁
  · have hle : len.toNat ≤ 0xFF := UInt32.le_iff_toNat_le.mp h₁
    refine readToken_chunks_sized (show header 0xc4 = .sized 1 0 binToken from rfl)
      hcontent ?_ (by omega) rest
    rw [hlength]
    rfl
  · have hcast : len.toUInt16.toNat = len.toNat := by
      rw [UInt32.toNat_toUInt16]
      omega
    refine readToken_chunks_sized (show header 0xc5 = .sized 2 0 binToken from rfl)
      hcontent ?_ (by omega) rest
    rw [lumbreStore16, hcast, hlength]
    rfl

end Item

/-! ## The contents of the buffer -/

/-- After packer calls that all succeed, and while `pos` does not wrap, the buffer holds its old
contents up to `pos` and behind them the bytes of the items. -/
lemma packAll_load {b : LumbreMsgpackBuf} {is : List Item} (hrc : (packAll is b).1 = 0)
    (hlt : b.pos.toNat + (is.map Item.size).sum < 2 ^ 64) :
    (packAll is b).2.pos.toNat = b.pos.toNat + (is.map Item.size).sum ∧
      (packAll is b).2.buf.load 0 (packAll is b).2.pos.toNat =
        b.buf.load 0 b.pos.toNat ++ is.flatMap Item.bytes := by
  have hlength := length_flatMap_bytes is
  have hfits : b.pos.toNat + (is.flatMap Item.bytes).length < 2 ^ 64 := by rwa [hlength]
  rw [packAll_eq_put hrc hlt, ← hlength]
  exact ⟨LumbreMsgpackBuf.toNat_put_pos hfits, LumbreMsgpackBuf.load_put hfits⟩

end LumbreExt
