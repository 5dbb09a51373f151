import LumbreExt.Lib.TokenStream
import LumbreExt.Msgpack.Encoding

/-!
# The packer's token stream

What a reader that follows the specification makes of the bytes of a sequence of packer calls.

* `Item.token` — what a call is to say; `Item.decoded` — what its bytes say. They differ for a map
  header whose count 16 bits do not hold (`Item.decoded_eq_token_iff`).
* `tokenSize` — the size of a token in the form the packer has for it; it is that of the item
  (`tokenSize_token`), and at most twice the size of any other form (`tokenSize_le`).
* `readTokens_packAll_iff` — a sequence of calls that all succeed is read back exactly when every
  argument is one the subset can represent.
-/

namespace LumbreExt

open Lib Lib.MsgPack

/-! ## What a call says -/

namespace Item

/-- The pointer of an item may be handed over with its length. -/
def Valid : Item → Prop
  | .str ptr len => ptr.Valid len
  | .bin ptr len => ptr.Valid len
  | _ => True

/-- The token a call stands for. -/
def token : Item → Token
  | .map count => .map count.toNat
  | .uint val => .scalar (.int val.toNat)
  | .str ptr len => .scalar (.str (ptr.bytes len))
  | .bin ptr len => .scalar (.bin (ptr.bytes len))

/-- The subset has a form for the argument: counts and binary lengths have 16 bits. -/
def Representable : Item → Prop
  | .map count => count.toNat ≤ 0xFFFF
  | .bin _ len => len.toNat ≤ 0xFFFF
  | _ => True

lemma Representable.not_unsupported {i : Item} (h : i.Representable) : ¬ i.Unsupported := by
  cases i with
  | map count => exact id
  | uint val => exact id
  | str ptr len => exact id
  | bin ptr len => exact Nat.not_lt.mpr h

/-- The token the bytes of an item are read as. -/
def decoded : Item → Token
  | .map count => .map (count.toNat % 2 ^ 16)
  | i => i.token

/-- An item that is not refused for its kind is read as `decoded`. -/
lemma readToken_bytes {i : Item} (hvalid : i.Valid) (hsupported : ¬ i.Unsupported)
    (rest : List UInt8) : readToken (i.bytes ++ rest) = some (i.decoded, rest) := by
  cases i with
  | map count => exact readToken_map count rest
  | uint val => exact represents_uint val rest
  | str ptr len => exact represents_str hvalid rest
  | bin ptr len => exact represents_bin hvalid (Nat.not_lt.mp hsupported) rest

/-- Only a count that 16 bits do not hold is read as another one. -/
lemma decoded_eq_token_iff {i : Item} (hsupported : ¬ i.Unsupported) :
    i.decoded = i.token ↔ i.Representable := by
  cases i with
  | map count =>
      change Token.map (count.toNat % 2 ^ 16) = Token.map count.toNat ↔ count.toNat ≤ 0xFFFF
      rw [Token.map.injEq]
      omega
  | uint val => exact iff_of_true rfl trivial
  | str ptr len => exact iff_of_true rfl trivial
  | bin ptr len => exact iff_of_true rfl (Nat.not_lt.mp hsupported)

/-- What becomes of an argument the subset has no form for. -/
lemma refuses_large_iff (i : Item) (b : LumbreMsgpackBuf) (hlarge : ¬ i.Representable) :
    (i.pack b).1 = -1 ↔ i.Unsupported ∨ b.capacity.toNat < (b.pos.toNat + 3) % 2 ^ 64 := by
  have hrefused : (i.pack b).1 = -1 ↔ i.Refused b.pos.toNat b.capacity.toNat := by
    rcases i.pack_cases b with ⟨hrefused, hpack⟩ | ⟨hnot, hpack⟩
    · rw [hpack]
      exact iff_of_true rfl hrefused
    · rw [hpack]
      exact iff_of_false (show (0 : ℤ) ≠ -1 by decide) hnot
  rw [hrefused, Refused]
  cases i with
  | map count =>
      have hlong : ¬ count ≤ 15 := by
        rw [UInt32.le_iff_toNat_le]
        exact fun hle => hlarge (le_trans hle (by decide))
      have hdeclared : (Item.map count).declared = 3 := by
        rw [declared, headSize, if_neg hlong]
        rfl
      rw [hdeclared]
  | uint val => exact absurd trivial hlarge
  | str ptr len => exact absurd trivial hlarge
  | bin ptr len =>
      have hunsupported : (Item.bin ptr len).Unsupported := Nat.not_le.mp hlarge
      exact iff_of_true (Or.inl hunsupported) (Or.inl hunsupported)

end Item

/-! ## Sizes -/

/-- The size of a token in the packer's form of it; `0` for a token the packer does not write. -/
def tokenSize : Token → ℕ
  | .map n => if n ≤ 15 then 1 else 3
  | .scalar (.int i) =>
      if i < 128 then 1 else if i ≤ 0xFF then 2 else if i ≤ 0xFFFF then 3
      else if i ≤ 0xFFFFFFFF then 5 else 9
  | .scalar (.str bs) =>
      (if bs.length < 32 then 1 else if bs.length ≤ 0xFFFF then 3 else 5) + bs.length
  | .scalar (.bin bs) => (if bs.length ≤ 0xFF then 2 else 3) + bs.length
  | _ => 0

/-- A pointer that may be handed over has all its content stored. -/
lemma BytePtr.Valid.size_eq {ptr : BytePtr} {len : UInt32} (h : ptr.Valid len) :
    (if ptr.isSome then len.toNat else 0) = len.toNat := by
  split_ifs with hsome
  · rfl
  · have hzero : ¬ 0 < len.toNat := fun hpos => hsome (h hpos)
    omega

/-- An item takes up the size of its token. -/
lemma tokenSize_token {i : Item} (hvalid : i.Valid) : tokenSize i.token = i.size := by
  cases i with
  | map count =>
      have hle : count ≤ 15 ↔ count.toNat ≤ 15 := UInt32.le_iff_toNat_le
      simp only [Item.token, tokenSize, Item.size, Item.headSize, Item.contentSize, hle,
        Nat.add_zero]
  | uint val =>
      have h128 : (val < 128) = ((val.toNat : ℤ) < 128) := by
        rw [UInt64.lt_iff_toNat_lt]
        exact propext Int.ofNat_lt.symm
      have hFF : (val ≤ 0xFF) = ((val.toNat : ℤ) ≤ 0xFF) := by
        rw [UInt64.le_iff_toNat_le]
        exact propext Int.ofNat_le.symm
      have hFFFF : (val ≤ 0xFFFF) = ((val.toNat : ℤ) ≤ 0xFFFF) := by
        rw [UInt64.le_iff_toNat_le]
        exact propext Int.ofNat_le.symm
      have hFFFFFFFF : (val ≤ 0xFFFFFFFF) = ((val.toNat : ℤ) ≤ 0xFFFFFFFF) := by
        rw [UInt64.le_iff_toNat_le]
        exact propext Int.ofNat_le.symm
      simp only [Item.token, tokenSize, Item.size, Item.headSize, Item.contentSize, h128, hFF,
        hFFFF, hFFFFFFFF, Nat.add_zero]
  | str ptr len =>
      have hlength := BytePtr.Valid.bytes_length hvalid
      have hlt : len < 32 ↔ len.toNat < 32 := UInt32.lt_iff_toNat_lt
      have hle : len ≤ 0xFFFF ↔ len.toNat ≤ 0xFFFF := UInt32.le_iff_toNat_le
      simp only [Item.token, tokenSize, Item.size, Item.headSize, Item.contentSize, hlength, hlt,
        hle, BytePtr.Valid.size_eq hvalid]
  | bin ptr len =>
      have hlength := BytePtr.Valid.bytes_length hvalid
      have hle : len ≤ 0xFF ↔ len.toNat ≤ 0xFF := UInt32.le_iff_toNat_le
      simp only [Item.token, tokenSize, Item.size, Item.headSize, Item.contentSize, hlength, hle,
        BytePtr.Valid.size_eq hvalid]

/-- The packer's form is at most twice as long as any other. -/
lemma tokenSize_le (t : Token) : tokenSize t ≤ 2 * t.minBytes := by
  cases t with
  | map n =>
      simp only [tokenSize, Token.minBytes]
      split_ifs <;> omega
  | array n => exact Nat.zero_le _
  | scalar s =>
      cases s with
      | int i =>
          simp only [tokenSize, Token.minBytes]
          split_ifs <;> omega
      | str bs =>
          simp only [tokenSize, Token.minBytes]
          split_ifs <;> omega
      | bin bs =>
          simp only [tokenSize, Token.minBytes]
          split_ifs <;> omega
      | _ => exact Nat.zero_le _

/-! ## When packing succeeds -/

/-- The space check of an item is given the bytes it takes up. -/
lemma Item.declared_eq_size {i : Item} (hvalid : i.Valid) (hshort : i.Short) :
    i.declared = i.size := by
  have hlt := hshort.sum_lt
  have hcontent : i.contentSize = i.len := by
    cases i with
    | map count => rfl
    | uint val => rfl
    | str ptr len => exact BytePtr.Valid.size_eq hvalid
    | bin ptr len => exact BytePtr.Valid.size_eq hvalid
  rw [declared, size, hcontent]
  exact Nat.mod_eq_of_lt hlt

/-- **Packing succeeds exactly when the items fit**, while `pos` cannot wrap. -/
lemma packAll_rc_iff {is : List Item} {b : LumbreMsgpackBuf}
    (hitems : ∀ i ∈ is, i.Valid ∧ i.Short ∧ i.Representable) (hpos : b.pos ≤ b.capacity)
    (hlt : b.pos.toNat + (is.map Item.size).sum < 2 ^ 64) :
    (packAll is b).1 = 0 ↔ b.pos.toNat + (is.map Item.size).sum ≤ b.capacity.toNat := by
  induction is generalizing b with
  | nil => exact iff_of_true rfl (UInt64.le_iff_toNat_le.mp hpos)
  | cons i is ih =>
      obtain ⟨hvalid, hshort, hrepresentable⟩ := hitems i List.mem_cons_self
      rw [List.map_cons, List.sum_cons] at hlt ⊢
      have hrefused : i.Refused b.pos.toNat b.capacity.toNat ↔
          b.capacity.toNat < b.pos.toNat + i.size := by
        rw [Item.Refused, Item.declared_eq_size hvalid hshort, Nat.mod_eq_of_lt (by omega),
          or_iff_right hrepresentable.not_unsupported]
      rcases i.pack_cases b with ⟨hover, h⟩ | ⟨hnot, h⟩
      · rw [packAll_cons_of_refused h]
        refine iff_of_false (show (-1 : ℤ) ≠ 0 by decide) ?_
        have := hrefused.mp hover
        omega
      · have hfit := mt hrefused.mpr hnot
        obtain ⟨_, hadvance⟩ := Item.putAll_chunks (i := i) (b := b) (by omega)
        have hposLe : (b.putAll i.chunks).pos ≤ (b.putAll i.chunks).capacity := by
          rw [UInt64.le_iff_toNat_le, hadvance, LumbreMsgpackBuf.putAll_capacity]
          omega
        rw [packAll_cons_of_put h, ih (fun j hj => hitems j (List.mem_cons_of_mem i hj)) hposLe
          (by omega), hadvance, LumbreMsgpackBuf.putAll_capacity, Nat.add_assoc]

/-! ## The stream -/

/-- No item of a sequence that all succeeds is refused for its kind. -/
lemma not_unsupported_of_packAll {is : List Item} {b : LumbreMsgpackBuf}
    (hrc : (packAll is b).1 = 0) : ∀ i ∈ is, ¬ i.Unsupported := by
  induction is generalizing b with
  | nil => exact fun i hi => absurd hi List.not_mem_nil
  | cons i is ih =>
      obtain ⟨hnot, hrest, _⟩ := packAll_cons_eq_zero hrc
      intro j hj
      rcases List.mem_cons.mp hj with rfl | hj
      · exact fun hunsupported => hnot (Or.inl hunsupported)
      · exact ih hrest j hj

/-- The bytes between `0` and `pos`. -/
def LumbreMsgpackBuf.written (b : LumbreMsgpackBuf) : List UInt8 := b.buf.load 0 b.pos.toNat

section stream

variable {is : List Item} {b : LumbreMsgpackBuf}

/-- Behind bytes that are read as `ts`, and while `pos` does not wrap, the bytes of the calls are read
as what each says. -/
lemma readTokens_written_behind {ts : List Token} (hread : readTokens b.written = some ts)
    (hvalid : ∀ i ∈ is, i.Valid) (hrc : (packAll is b).1 = 0)
    (hlt : b.pos.toNat + (is.map Item.size).sum < 2 ^ 64) :
    readTokens (packAll is b).2.written = some (ts ++ is.map Item.decoded) := by
  have hload : (packAll is b).2.written = b.written ++ is.flatMap Item.bytes :=
    (packAll_load hrc hlt).2
  have hitems : readTokens (is.flatMap Item.bytes) = some (is.map Item.decoded) := by
    apply readTokens_flatMap
    intro i hi rest
    exact Item.readToken_bytes (hvalid i hi) (not_unsupported_of_packAll hrc i hi) rest
  rw [hload, readTokens_append hread, hitems, Option.map_some]

/-- While `pos` does not wrap, the bytes of the calls are read as what each says. -/
lemma readTokens_written (hvalid : ∀ i ∈ is, i.Valid) (hpos : b.pos = 0)
    (hrc : (packAll is b).1 = 0) (hlt : (is.map Item.size).sum < 2 ^ 64) :
    readTokens (packAll is b).2.written = some (is.map Item.decoded) := by
  have hzero : b.pos.toNat = 0 := by
    rw [hpos]
    rfl
  have hempty : readTokens b.written = some [] := by
    rw [LumbreMsgpackBuf.written, hzero]
    rfl
  exact readTokens_written_behind hempty hvalid hrc (by omega)

/-- Any other stream of the same tokens is at least half as long as the packer's. -/
lemma sum_size_le (hvalid : ∀ i ∈ is, i.Valid) :
    (is.map Item.size).sum ≤ 2 * ((is.map Item.token).map Token.minBytes).sum := by
  induction is with
  | nil => exact Nat.zero_le _
  | cons i is ih =>
      have hi := tokenSize_le i.token
      rw [tokenSize_token (hvalid i List.mem_cons_self)] at hi
      have hrest := ih fun j hj => hvalid j (List.mem_cons_of_mem i hj)
      rw [List.map_cons, List.map_cons, List.map_cons, List.sum_cons, List.sum_cons]
      omega

/-- When `pos` wraps, what is left is too short to be read as what the calls say: its length is the
sum of the sizes modulo `2 ^ 64`, and no form of a token is shorter than half of the packer's. -/
lemma sum_size_lt_of_readTokens (hvalid : ∀ i ∈ is, i.Valid) (hpos : b.pos = 0)
    (hrc : (packAll is b).1 = 0)
    (hread : readTokens (packAll is b).2.written = some (is.map Item.token)) :
    (is.map Item.size).sum < 2 ^ 64 := by
  have hbytes := minBytes_readTokens_le hread
  have hlength : (packAll is b).2.written.length = (is.map Item.size).sum % 2 ^ 64 := by
    rw [LumbreMsgpackBuf.written, Mem.load_length, packAll_pos hrc, hpos, UInt64.zero_add,
      toNat_counter]
  have hhalf := sum_size_le hvalid
  omega

/-- **The token stream is lossless exactly for representable arguments.** A sequence of packer calls
from position `0` that all succeed is read back, to the last byte, as what the calls say exactly when
every count and every binary length has 16 bits, and `pos` does not wrap. Of the arguments that have
more bits, binary data is always refused; a map header is refused only when its three bytes do not
fit. -/
theorem readTokens_packAll_iff (hvalid : ∀ i ∈ is, i.Valid) (hpos : b.pos = 0)
    (hrc : (packAll is b).1 = 0) :
    (readTokens (packAll is b).2.written = some (is.map Item.token) ↔
      (∀ i ∈ is, i.Representable) ∧ (is.map Item.size).sum < 2 ^ 64) ∧
    ∀ (i : Item) (b : LumbreMsgpackBuf), ¬ i.Representable →
      ((i.pack b).1 = -1 ↔
        i.Unsupported ∨ b.capacity.toNat < (b.pos.toNat + 3) % 2 ^ 64) := by
  refine ⟨?_, fun i b hlarge => i.refuses_large_iff b hlarge⟩
  have hsupported := not_unsupported_of_packAll hrc
  constructor
  · intro hread
    have hlt := sum_size_lt_of_readTokens hvalid hpos hrc hread
    rw [readTokens_written hvalid hpos hrc hlt, Option.some.injEq, List.map_inj_left] at hread
    exact ⟨fun i hi => (Item.decoded_eq_token_iff (hsupported i hi)).mp (hread i hi), hlt⟩
  · rintro ⟨hrepresentable, hlt⟩
    rw [readTokens_written hvalid hpos hrc hlt, Option.some.injEq, List.map_inj_left]
    exact fun i hi => (Item.decoded_eq_token_iff (hsupported i hi)).mpr (hrepresentable i hi)

end stream

/-- A map header, a string and an integer in a buffer of 16 bytes. -/
theorem readTokens_packAll_iff_entry :
    readTokens (packAll [.map 1, .str (some fun _ => 0x74) 1, .uint 300] bufOfSixteen).2.written =
      some [.map 1, .scalar (.str [0x74]), .scalar (.int 300)] := by
  have hvalid : ∀ i ∈ ([.map 1, .str (some fun _ => 0x74) 1, .uint 300] : List Item), i.Valid := by
    simp only [List.forall_mem_cons]
    exact ⟨trivial, fun _ => rfl, trivial, fun _ h => absurd h List.not_mem_nil⟩
  have hrepresentable : ∀ i ∈ ([.map 1, .str (some fun _ => 0x74) 1, .uint 300] : List Item),
      i.Representable := by
    simp only [List.forall_mem_cons]
    exact ⟨show 1 ≤ 0xFFFF by decide, trivial, trivial, fun _ h => absurd h List.not_mem_nil⟩
  exact (readTokens_packAll_iff hvalid (b := bufOfSixteen) rfl rfl).1.mpr
    ⟨hrepresentable, by decide⟩

/-- A map header for `65536` entries is accepted and announces none. -/
theorem map_count_truncated :
    (packAll [.map 65536] bufOfSixteen).1 = 0 ∧
      readTokens (packAll [.map 65536] bufOfSixteen).2.written = some [.map 0] ∧
      readTokens (packAll [.map 65536] bufOfSixteen).2.written ≠
        some ([Item.map 65536].map Item.token) := by
  have hread : readTokens (packAll [.map 65536] bufOfSixteen).2.written = some [.map 0] := by
    decide +kernel
  refine ⟨by decide, hread, ?_⟩
  rw [hread]
  decide

end LumbreExt
