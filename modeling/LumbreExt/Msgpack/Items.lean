import LumbreExt.Lib.Word
import LumbreExt.Msgpack.Basic

/-!
# Items and their layout

The four packers differ in the header they choose; everything else about them is the same, and is
said here once.

* `Item`, `packAll` — what one packer appends, and a sequence of packer calls that stops at the first
  one that does not return `0`. `PackCall` lists the functions of the interface; each is `packAll` of
  its items (`PackCall.run_eq`).
* `Item.chunks`, `Item.size`, `Item.declared` — the stores of an item in the order in which they are
  made, the bytes they take up, and the size the space check is given. The last two differ when
  the 32-bit sum wraps, or when the content is `NULL` and is left out.
* `Item.pack_cases` — a packer either is refused and changes nothing, or puts all its chunks.
* `Overflows`, `packAll_eq_zero_iff` — which sequences do not succeed, read off the items alone.
-/

namespace LumbreExt

open Lib

namespace LumbreMsgpackBuf

/-- Several `put`s in a row. -/
def putAll (b : LumbreMsgpackBuf) (cs : List (List UInt8)) : LumbreMsgpackBuf :=
  cs.foldl put b

@[simp] lemma putAll_nil (b : LumbreMsgpackBuf) : b.putAll [] = b := rfl

@[simp] lemma putAll_cons (b : LumbreMsgpackBuf) (c : List UInt8) (cs : List (List UInt8)) :
    b.putAll (c :: cs) = (b.put c).putAll cs := rfl

lemma putAll_append (b : LumbreMsgpackBuf) (cs ds : List (List UInt8)) :
    b.putAll (cs ++ ds) = (b.putAll cs).putAll ds :=
  List.foldl_append

@[simp] lemma put_capacity (b : LumbreMsgpackBuf) (bs : List UInt8) :
    (b.put bs).capacity = b.capacity := rfl

@[simp] lemma putAll_capacity (b : LumbreMsgpackBuf) (cs : List (List UInt8)) :
    (b.putAll cs).capacity = b.capacity := by
  induction cs generalizing b with
  | nil => rfl
  | cons c cs ih => rw [putAll_cons, ih, put_capacity]

/-- While `pos` does not wrap it advances by the bytes put. -/
lemma toNat_put_pos {b : LumbreMsgpackBuf} {bs : List UInt8}
    (h : b.pos.toNat + bs.length < 2 ^ 64) :
    (b.put bs).pos.toNat = b.pos.toNat + bs.length := by
  change (b.pos + UInt64.ofNat bs.length).toNat = _
  rw [UInt64.toNat_add, toNat_counter]
  omega

/-- While `pos` does not wrap, two `put`s are one. -/
lemma put_put {b : LumbreMsgpackBuf} {bs cs : List UInt8}
    (h : b.pos.toNat + bs.length < 2 ^ 64) : (b.put bs).put cs = b.put (bs ++ cs) := by
  have hpos := toNat_put_pos h
  have hbuf : ((b.put bs).put cs).buf = (b.put (bs ++ cs)).buf := by
    change (b.put bs).buf.storeAll (copyStores (b.put bs).pos.toNat cs) = _
    rw [hpos, put, put, copyStores_append, Mem.storeAll_append]
  have hadvance : ((b.put bs).put cs).pos = (b.put (bs ++ cs)).pos := by
    change b.pos + UInt64.ofNat bs.length + UInt64.ofNat cs.length =
      b.pos + UInt64.ofNat (bs ++ cs).length
    rw [List.length_append, UInt64.ofNat_add, UInt64.add_assoc]
  have hstores : ((b.put bs).put cs).stores = (b.put (bs ++ cs)).stores := by
    change (b.put bs).stores ++ copyStores (b.put bs).pos.toNat cs = _
    rw [hpos, put, put, copyStores_append, List.append_assoc]
  exact LumbreMsgpackBuf.ext hbuf rfl hadvance hstores

/-- While `pos` does not wrap, several `put`s are one. -/
lemma putAll_eq_put {b : LumbreMsgpackBuf} {cs : List (List UInt8)}
    (h : b.pos.toNat + cs.flatten.length < 2 ^ 64) : b.putAll cs = b.put cs.flatten := by
  induction cs generalizing b with
  | nil =>
      exact LumbreMsgpackBuf.ext rfl rfl (UInt64.add_zero b.pos).symm (List.append_nil _).symm
  | cons c cs ih =>
      rw [List.flatten_cons, List.length_append] at h
      have hpos : (b.put c).pos.toNat = b.pos.toNat + c.length := toNat_put_pos (by omega)
      rw [putAll_cons, ih (by omega), put_put (by omega), List.flatten_cons]

/-- `pos` advances by the bytes put, wrapping or not. -/
lemma putAll_pos (b : LumbreMsgpackBuf) (cs : List (List UInt8)) :
    (b.putAll cs).pos = b.pos + UInt64.ofNat cs.flatten.length := by
  induction cs generalizing b with
  | nil => exact (UInt64.add_zero b.pos).symm
  | cons c cs ih =>
      have hput : (b.put c).pos = b.pos + UInt64.ofNat c.length := rfl
      rw [putAll_cons, ih, hput, List.flatten_cons, List.length_append, UInt64.ofNat_add,
        UInt64.add_assoc]

/-- While `pos` does not wrap, the buffer holds its old contents and behind them the bytes put. -/
lemma load_put {b : LumbreMsgpackBuf} {bs : List UInt8} (h : b.pos.toNat + bs.length < 2 ^ 64) :
    (b.put bs).buf.load 0 (b.put bs).pos.toNat = b.buf.load 0 b.pos.toNat ++ bs := by
  rw [toNat_put_pos h, Mem.load_add, Nat.zero_add]
  congr 1
  · exact Mem.load_storeAll_copyStores_of_disjoint _ (Or.inl (by omega))
  · exact Mem.load_storeAll_copyStores _ _ _

end LumbreMsgpackBuf

/-! ## Items -/

/-- What one packer appends. -/
inductive Item
  | map (count : UInt32)
  | uint (val : UInt64)
  | str (ptr : BytePtr) (len : UInt32)
  | bin (ptr : BytePtr) (len : UInt32)

/-- The packer of an item. -/
def Item.pack : Item → LumbreMsgpackBuf → ℤ × LumbreMsgpackBuf
  | .map count, b => lumbreMsgpackPackMap b count
  | .uint val, b => lumbreMsgpackPackUint b val
  | .str ptr len, b => lumbreMsgpackPackStr b ptr len
  | .bin ptr len, b => lumbreMsgpackPackBin b ptr len

/-- Packer calls one after the other, up to the first that fails. -/
def packAll : List Item → LumbreMsgpackBuf → ℤ × LumbreMsgpackBuf
  | [], b => (0, b)
  | i :: is, b => if (i.pack b).1 ≠ 0 then i.pack b else packAll is (i.pack b).2

/-- A call of the packer interface. -/
inductive PackCall
  | map (count : UInt32)
  | uint (val : UInt64)
  | str (ptr : BytePtr) (len : UInt32)
  | bin (ptr : BytePtr) (len : UInt32)
  | strKv (key : BytePtr) (keyLen : UInt32) (val : BytePtr) (valLen : UInt32)
  | uintKv (key : BytePtr) (keyLen : UInt32) (val : UInt64)
  | binKv (key : BytePtr) (keyLen : UInt32) (data : BytePtr) (dataLen : UInt32)

namespace PackCall

/-- The function called. -/
def run : PackCall → LumbreMsgpackBuf → ℤ × LumbreMsgpackBuf
  | .map count, b => lumbreMsgpackPackMap b count
  | .uint val, b => lumbreMsgpackPackUint b val
  | .str ptr len, b => lumbreMsgpackPackStr b ptr len
  | .bin ptr len, b => lumbreMsgpackPackBin b ptr len
  | .strKv key keyLen val valLen, b => lumbreMsgpackPackStrKv b key keyLen val valLen
  | .uintKv key keyLen val, b => lumbreMsgpackPackUintKv b key keyLen val
  | .binKv key keyLen data dataLen, b => lumbreMsgpackPackBinKv b key keyLen data dataLen

/-- The items a call appends, in order. -/
def items : PackCall → List Item
  | .map count => [.map count]
  | .uint val => [.uint val]
  | .str ptr len => [.str ptr len]
  | .bin ptr len => [.bin ptr len]
  | .strKv key keyLen val valLen => [.str key keyLen, .str val valLen]
  | .uintKv key keyLen val => [.str key keyLen, .uint val]
  | .binKv key keyLen data dataLen => [.str key keyLen, .bin data dataLen]

end PackCall

/-! ## Layout -/

/-- The store of the content of a string or binary: none when it is empty or `NULL`. -/
def contentChunks (ptr : BytePtr) (len : UInt32) : List (List UInt8) :=
  match ptr with
  | none => []
  | some m => if len > 0 then [m.load 0 len.toNat] else []

lemma putContent_eq (b : LumbreMsgpackBuf) (ptr : BytePtr) (len : UInt32) :
    b.putContent ptr len = b.putAll (contentChunks ptr len) := by
  unfold LumbreMsgpackBuf.putContent contentChunks
  cases ptr with
  | none => rfl
  | some m => split_ifs <;> rfl

lemma contentChunks_flatten_length (ptr : BytePtr) (len : UInt32) :
    (contentChunks ptr len).flatten.length = if ptr.isSome then len.toNat else 0 := by
  cases ptr with
  | none => rfl
  | some m =>
      simp only [contentChunks, Option.isSome_some, if_true]
      split_ifs with hlen
      · simp
      · rw [gt_iff_lt, UInt32.lt_iff_toNat_lt, UInt32.toNat_zero] at hlen
        simp only [List.flatten_nil, List.length_nil]
        omega

lemma ne_nil_of_mem_contentChunks {ptr : BytePtr} {len : UInt32} {c : List UInt8}
    (hc : c ∈ contentChunks ptr len) : c ≠ [] := by
  cases ptr with
  | none => simp [contentChunks] at hc
  | some m =>
      simp only [contentChunks] at hc
      split_ifs at hc with hlen
      · rw [List.mem_singleton.mp hc, ← List.length_pos_iff, Mem.load_length]
        exact UInt32.lt_iff_toNat_lt.mp hlen
      · simp at hc

namespace Item

/-- The stores of the header. -/
def head : Item → List (List UInt8)
  | .map count =>
      if count ≤ 15 then [[(0x80 ||| count).toUInt8]]
      else [[0xde], lumbreStore16 count.toUInt16]
  | .uint val =>
      if val < 128 then [[val.toUInt8]]
      else if val ≤ 0xFF then [[0xcc], [val.toUInt8]]
      else if val ≤ 0xFFFF then [[0xcd], lumbreStore16 val.toUInt16]
      else if val ≤ 0xFFFFFFFF then [[0xce], lumbreStore32 val.toUInt32]
      else [[0xcf], lumbreStore64 val]
  | .str _ len =>
      if len < 32 then [[(0xa0 ||| len).toUInt8]]
      else if len ≤ 0xFFFF then [[0xda], lumbreStore16 len.toUInt16]
      else [[0xdb], lumbreStore32 len]
  | .bin _ len =>
      if len ≤ 0xFF then [[0xc4], [len.toUInt8]]
      else [[0xc5], lumbreStore16 len.toUInt16]

/-- The store of the content, when there is one. -/
def content : Item → List (List UInt8)
  | .str ptr len => contentChunks ptr len
  | .bin ptr len => contentChunks ptr len
  | _ => []

/-- The stores of an item, in order. -/
def chunks (i : Item) : List (List UInt8) := i.head ++ i.content

/-- The bytes of an item. -/
def bytes (i : Item) : List UInt8 := i.chunks.flatten

/-- The number of bytes of the header. -/
def headSize : Item → ℕ
  | .map count => if count ≤ 15 then 1 else 3
  | .uint val =>
      if val < 128 then 1 else if val ≤ 0xFF then 2 else if val ≤ 0xFFFF then 3
      else if val ≤ 0xFFFFFFFF then 5 else 9
  | .str _ len => if len < 32 then 1 else if len ≤ 0xFFFF then 3 else 5
  | .bin _ len => if len ≤ 0xFF then 2 else 3

/-- The length argument of an item. -/
def len : Item → ℕ
  | .str _ len => len.toNat
  | .bin _ len => len.toNat
  | _ => 0

/-- The number of content bytes an item takes up. -/
def contentSize : Item → ℕ
  | .str ptr len => if ptr.isSome then len.toNat else 0
  | .bin ptr len => if ptr.isSome then len.toNat else 0
  | _ => 0

/-- The number of bytes an item takes up. -/
def size (i : Item) : ℕ := i.headSize + i.contentSize

/-- The size the space check is given, a `uint32_t`. -/
def declared (i : Item) : ℕ := (i.headSize + i.len) % 2 ^ 32

/-- An item the subset has no form for. -/
def Unsupported : Item → Prop
  | .bin _ len => 0xFFFF < len.toNat
  | _ => False

/-- The packer returns `-1`: there is no form, or the 64-bit sum of `pos` and the declared size
exceeds `capacity`. -/
def Refused (pos cap : ℕ) (i : Item) : Prop :=
  i.Unsupported ∨ cap < (pos + i.declared) % 2 ^ 64

instance : DecidablePred Unsupported := fun i => by
  cases i <;> unfold Unsupported <;> infer_instance

instance (pos cap : ℕ) (i : Item) : Decidable (i.Refused pos cap) := by
  unfold Refused
  infer_instance

/-- Every store of an item has bytes in it. -/
lemma ne_nil_of_mem_chunks {i : Item} {c : List UInt8} (hc : c ∈ i.chunks) : c ≠ [] := by
  rcases List.mem_append.mp hc with hhead | hcontent
  · rintro rfl
    cases i <;> simp only [head] at hhead <;> split_ifs at hhead <;>
      simp [lumbreStore16, lumbreStore32, lumbreStore64, leBytes] at hhead
  · cases i with
    | map _ => simp [content] at hcontent
    | uint _ => simp [content] at hcontent
    | str _ _ => exact ne_nil_of_mem_contentChunks hcontent
    | bin _ _ => exact ne_nil_of_mem_contentChunks hcontent

lemma head_flatten_length (i : Item) : i.head.flatten.length = i.headSize := by
  cases i <;> simp only [head, headSize] <;> split_ifs <;>
    simp [lumbreStore16, lumbreStore32, lumbreStore64]

lemma content_flatten_length (i : Item) : i.content.flatten.length = i.contentSize := by
  cases i with
  | map _ => rfl
  | uint _ => rfl
  | str ptr len => exact contentChunks_flatten_length ptr len
  | bin ptr len => exact contentChunks_flatten_length ptr len

/-- An item takes up as many bytes as its stores write. -/
lemma bytes_length (i : Item) : i.bytes.length = i.size := by
  rw [bytes, chunks, List.flatten_append, List.length_append, head_flatten_length,
    content_flatten_length, size]

/-! ## What a packer does -/

/-- The macro with its size argument read as a number. -/
lemma checkSpace_cases (b b' : LumbreMsgpackBuf) {n : UInt64} {d : ℕ} (hn : n.toNat = d) :
    (b.capacity.toNat < (b.pos.toNat + d) % 2 ^ 64 ∧
        lumbreMsgpackCheckSpace b n b' = (-1, b)) ∨
      (¬ b.capacity.toNat < (b.pos.toNat + d) % 2 ^ 64 ∧
        lumbreMsgpackCheckSpace b n b' = (0, b')) := by
  have hiff : b.pos + n > b.capacity ↔ b.capacity.toNat < (b.pos.toNat + d) % 2 ^ 64 := by
    rw [gt_iff_lt, UInt64.lt_iff_toNat_lt, UInt64.toNat_add, hn]
  unfold lumbreMsgpackCheckSpace
  rcases Decidable.em (b.pos + n > b.capacity) with hgt | hle
  · exact Or.inl ⟨hiff.mp hgt, if_pos hgt⟩
  · exact Or.inr ⟨fun h => hle (hiff.mpr h), if_neg hle⟩

/-- A packer that starts with the macro, given the declared size, is refused or puts all. -/
lemma pack_cases_of_checkSpace {i : Item} {b : LumbreMsgpackBuf} {n : UInt64}
    (hsupported : ¬ i.Unsupported) (hn : n.toNat = i.declared)
    (hpack : i.pack b = lumbreMsgpackCheckSpace b n (b.putAll i.chunks)) :
    (i.Refused b.pos.toNat b.capacity.toNat ∧ i.pack b = (-1, b)) ∨
      (¬ i.Refused b.pos.toNat b.capacity.toNat ∧ i.pack b = (0, b.putAll i.chunks)) := by
  rcases checkSpace_cases b (b.putAll i.chunks) hn with ⟨hgt, hcheck⟩ | ⟨hle, hcheck⟩
  · exact Or.inl ⟨Or.inr hgt, hpack.trans hcheck⟩
  · exact Or.inr ⟨fun h => h.elim hsupported hle, hpack.trans hcheck⟩

/-- A packer either is refused and changes nothing, or puts all its chunks. -/
lemma pack_cases (i : Item) (b : LumbreMsgpackBuf) :
    (i.Refused b.pos.toNat b.capacity.toNat ∧ i.pack b = (-1, b)) ∨
      (¬ i.Refused b.pos.toNat b.capacity.toNat ∧ i.pack b = (0, b.putAll i.chunks)) := by
  cases i with
  | map count =>
      refine pack_cases_of_checkSpace (i := .map count)
        (n := UInt64.ofNat (headSize (.map count))) id ?_ ?_
      · simp only [declared, headSize, len]
        split_ifs <;> rfl
      · simp only [pack, lumbreMsgpackPackMap, chunks, head, content, headSize]
        split_ifs <;> rfl
  | uint val =>
      refine pack_cases_of_checkSpace (i := .uint val)
        (n := UInt64.ofNat (headSize (.uint val))) id ?_ ?_
      · simp only [declared, headSize, len]
        split_ifs <;> rfl
      · simp only [pack, lumbreMsgpackPackUint, chunks, head, content, headSize]
        split_ifs <;> rfl
  | str ptr len =>
      refine pack_cases_of_checkSpace (i := .str ptr len)
        (n := (UInt32.ofNat (headSize (.str ptr len)) + len).toUInt64) id ?_ ?_
      · rw [UInt32.toNat_toUInt64, UInt32.toNat_add]
        simp only [declared, headSize, Item.len]
        split_ifs <;> rfl
      · simp only [pack, lumbreMsgpackPackStr, putContent_eq, chunks, head, content, headSize,
          LumbreMsgpackBuf.putAll_append]
        split_ifs <;> rfl
  | bin ptr len =>
      rcases Decidable.em (0xFFFF < len.toNat) with hlong | hshort
      · have hnot₁ : ¬ len ≤ 0xFF := by
          rw [UInt32.le_iff_toNat_le]
          exact Nat.not_le.mpr (Nat.lt_trans (by decide) hlong)
        have hnot₂ : ¬ len ≤ 0xFFFF := by
          rw [UInt32.le_iff_toNat_le]
          exact Nat.not_le.mpr hlong
        refine Or.inl ⟨Or.inl hlong, ?_⟩
        simp only [pack, lumbreMsgpackPackBin, if_neg hnot₁, if_neg hnot₂]
      · have hle : len ≤ 0xFFFF := by
          rw [UInt32.le_iff_toNat_le]
          exact Nat.not_lt.mp hshort
        refine pack_cases_of_checkSpace (i := .bin ptr len)
          (n := (UInt32.ofNat (headSize (.bin ptr len)) + len).toUInt64) hshort ?_ ?_
        · rw [UInt32.toNat_toUInt64, UInt32.toNat_add]
          simp only [declared, headSize, Item.len]
          split_ifs <;> rfl
        · simp only [pack, lumbreMsgpackPackBin, putContent_eq, chunks, head, content, headSize,
            if_pos hle, LumbreMsgpackBuf.putAll_append]
          split_ifs <;> rfl

end Item

/-! ## Calls -/

lemma packAll_cons_of_refused {i : Item} {is : List Item} {b : LumbreMsgpackBuf}
    (h : i.pack b = (-1, b)) : packAll (i :: is) b = (-1, b) := by
  have hne : (i.pack b).1 ≠ 0 := by
    rw [h]
    exact Int.neg_ne_zero.mpr Int.one_ne_zero
  rw [packAll, if_pos hne, h]

lemma packAll_cons_of_put {i : Item} {is : List Item} {b b' : LumbreMsgpackBuf}
    (h : i.pack b = (0, b')) : packAll (i :: is) b = packAll is b' := by
  have heq : ¬ (i.pack b).1 ≠ 0 := by
    rw [h]
    exact not_not.mpr rfl
  rw [packAll, if_neg heq, h]

lemma packAll_singleton (i : Item) (b : LumbreMsgpackBuf) : packAll [i] b = i.pack b := by
  rcases i.pack_cases b with ⟨_, h⟩ | ⟨_, h⟩
  · rw [packAll_cons_of_refused h, h]
  · rw [packAll_cons_of_put h, h]
    rfl

/-- A sequence of packer calls returns `0` or `-1`. -/
lemma packAll_rc (is : List Item) (b : LumbreMsgpackBuf) :
    (packAll is b).1 = 0 ∨ (packAll is b).1 = -1 := by
  induction is generalizing b with
  | nil => exact Or.inl rfl
  | cons i is ih =>
      rcases i.pack_cases b with ⟨_, h⟩ | ⟨_, h⟩
      · rw [packAll_cons_of_refused h]
        exact Or.inr rfl
      · rw [packAll_cons_of_put h]
        exact ih _

/-- One sequence behind another: the second is packed when the first succeeds. -/
lemma packAll_append (is js : List Item) (b : LumbreMsgpackBuf) :
    packAll (is ++ js) b =
      if (packAll is b).1 ≠ 0 then packAll is b else packAll js (packAll is b).2 := by
  induction is generalizing b with
  | nil => rfl
  | cons i is ih =>
      rcases i.pack_cases b with ⟨_, h⟩ | ⟨_, h⟩
      · rw [List.cons_append, packAll_cons_of_refused h, packAll_cons_of_refused h]
        rfl
      · rw [List.cons_append, packAll_cons_of_put h, packAll_cons_of_put h, ih]

/-- A key-value helper packs two items. -/
lemma packAll_pair (i j : Item) (b : LumbreMsgpackBuf) :
    packAll [i, j] b = if (i.pack b).1 ≠ 0 then i.pack b else j.pack (i.pack b).2 := by
  rw [packAll, packAll_singleton]

/-- Every function of the interface packs its items. -/
lemma PackCall.run_eq (c : PackCall) (b : LumbreMsgpackBuf) : c.run b = packAll c.items b := by
  cases c with
  | map count => exact (packAll_singleton (.map count) b).symm
  | uint val => exact (packAll_singleton (.uint val) b).symm
  | str ptr len => exact (packAll_singleton (.str ptr len) b).symm
  | bin ptr len => exact (packAll_singleton (.bin ptr len) b).symm
  | strKv key keyLen val valLen => exact (packAll_pair (.str key keyLen) (.str val valLen) b).symm
  | uintKv key keyLen val => exact (packAll_pair (.str key keyLen) (.uint val) b).symm
  | binKv key keyLen data dataLen =>
      exact (packAll_pair (.str key keyLen) (.bin data dataLen) b).symm

/-- The bytes of a sequence of items are as many as their sizes. -/
lemma length_flatMap_bytes (is : List Item) :
    (is.flatMap Item.bytes).length = (is.map Item.size).sum := by
  induction is with
  | nil => rfl
  | cons i is ih =>
      rw [List.flatMap_cons, List.length_append, ih, i.bytes_length, List.map_cons, List.sum_cons]

/-- In a sequence that succeeds the first item is put, and the others succeed behind it. -/
lemma packAll_cons_eq_zero {i : Item} {is : List Item} {b : LumbreMsgpackBuf}
    (hrc : (packAll (i :: is) b).1 = 0) :
    ¬ i.Refused b.pos.toNat b.capacity.toNat ∧ (packAll is (b.putAll i.chunks)).1 = 0 ∧
      packAll (i :: is) b = packAll is (b.putAll i.chunks) := by
  rcases i.pack_cases b with ⟨_, h⟩ | ⟨hnot, h⟩
  · rw [packAll_cons_of_refused h] at hrc
    exact absurd hrc (Int.neg_ne_zero.mpr Int.one_ne_zero)
  · rw [packAll_cons_of_put h] at hrc ⊢
    exact ⟨hnot, hrc, rfl⟩

/-- While `pos` does not wrap, the chunks of an item are put as its bytes. -/
lemma Item.putAll_chunks {i : Item} {b : LumbreMsgpackBuf} (h : b.pos.toNat + i.size < 2 ^ 64) :
    b.putAll i.chunks = b.put i.bytes ∧ (b.putAll i.chunks).pos.toNat = b.pos.toNat + i.size := by
  have hlength := i.bytes_length
  have hput : b.putAll i.chunks = b.put i.bytes :=
    LumbreMsgpackBuf.putAll_eq_put (by rw [← Item.bytes, hlength]; exact h)
  refine ⟨hput, ?_⟩
  rw [hput, LumbreMsgpackBuf.toNat_put_pos (by rw [hlength]; exact h), hlength]

/-- Packer calls that all succeed advance `pos` by the sizes of the items, wrapping or not. -/
lemma packAll_pos {is : List Item} {b : LumbreMsgpackBuf} (hrc : (packAll is b).1 = 0) :
    (packAll is b).2.pos = b.pos + UInt64.ofNat (is.map Item.size).sum := by
  induction is generalizing b with
  | nil => exact (UInt64.add_zero b.pos).symm
  | cons i is ih =>
      obtain ⟨_, hrest, heq⟩ := packAll_cons_eq_zero hrc
      have hlength : i.chunks.flatten.length = i.size := i.bytes_length
      rw [heq, ih hrest, LumbreMsgpackBuf.putAll_pos, hlength, List.map_cons, List.sum_cons,
        UInt64.ofNat_add, UInt64.add_assoc]

/-- **Packer calls that all succeed put the bytes of the items**, while `pos` does not wrap. -/
lemma packAll_eq_put {is : List Item} {b : LumbreMsgpackBuf} (hrc : (packAll is b).1 = 0)
    (hlt : b.pos.toNat + (is.map Item.size).sum < 2 ^ 64) :
    packAll is b = (0, b.put (is.flatMap Item.bytes)) := by
  induction is generalizing b with
  | nil =>
      have hnone : b.put [] = b :=
        LumbreMsgpackBuf.ext rfl rfl (UInt64.add_zero b.pos) (List.append_nil _)
      rw [List.flatMap_nil, hnone]
      rfl
  | cons i is ih =>
      rw [List.map_cons, List.sum_cons] at hlt
      obtain ⟨_, hrest, heq⟩ := packAll_cons_eq_zero hrc
      obtain ⟨hput, hadvance⟩ := Item.putAll_chunks (i := i) (b := b) (by omega)
      have hlength := i.bytes_length
      rw [heq, ih hrest (by omega), hput, LumbreMsgpackBuf.put_put (by omega), List.flatMap_cons]

/-- Packing never changes the capacity. -/
lemma packAll_capacity (is : List Item) (b : LumbreMsgpackBuf) :
    (packAll is b).2.capacity = b.capacity := by
  induction is generalizing b with
  | nil => rfl
  | cons i is ih =>
      rcases i.pack_cases b with ⟨_, h⟩ | ⟨_, h⟩
      · rw [packAll_cons_of_refused h]
      · rw [packAll_cons_of_put h, ih, LumbreMsgpackBuf.putAll_capacity]

/-! ## Sequences that do not succeed -/

/-- Packed from position `pos` on, one of the items is refused. -/
def Overflows (capacity : UInt64) : UInt64 → List Item → Prop
  | _, [] => False
  | pos, i :: is =>
      i.Refused pos.toNat capacity.toNat ∨ Overflows capacity (pos + UInt64.ofNat i.size) is

instance decidableOverflows (capacity : UInt64) :
    (pos : UInt64) → (is : List Item) → Decidable (Overflows capacity pos is)
  | _, [] => inferInstanceAs (Decidable False)
  | pos, i :: is =>
      have := decidableOverflows capacity (pos + UInt64.ofNat i.size) is
      inferInstanceAs (Decidable (_ ∨ _))

/-- **Packer calls all succeed exactly when no item is refused.** -/
lemma packAll_eq_zero_iff (is : List Item) (b : LumbreMsgpackBuf) :
    (packAll is b).1 = 0 ↔ ¬ Overflows b.capacity b.pos is := by
  induction is generalizing b with
  | nil => exact iff_of_true rfl id
  | cons i is ih =>
      rw [Overflows, not_or]
      rcases i.pack_cases b with ⟨hrefused, h⟩ | ⟨hput, h⟩
      · rw [packAll_cons_of_refused h]
        exact iff_of_false (Int.neg_ne_zero.mpr Int.one_ne_zero) fun hnot => hnot.1 hrefused
      · have hlength : i.chunks.flatten.length = i.size := i.bytes_length
        rw [packAll_cons_of_put h, ih, LumbreMsgpackBuf.putAll_pos,
          LumbreMsgpackBuf.putAll_capacity, hlength, and_iff_right hput]

end LumbreExt
