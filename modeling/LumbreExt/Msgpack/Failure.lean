import LumbreExt.Msgpack.Tokens

/-!
# What a failed call leaves behind

A packer checks the space before its first store, so when it is refused it has stored nothing. A
key-value helper is two packers in a row, and the second may be refused when the first has stored.

* `packAll_pair_cases` — the three ways in which a helper ends.
* `Kept` — what a failure is to leave: `pos` and the bytes below it as they were, and a stream to
  which items that fit can still be added.
* `PackCall.Torn` — the key of a helper is accepted, and its value is refused behind the key.
* `PackCall.atomic_iff` — a call keeps the buffer when it fails exactly when it is not torn. What a
  torn call leaves is its key, with no value (`readTokens_torn`).
-/

namespace LumbreExt

open Lib Lib.MsgPack

/-! ## How a helper ends -/

/-- No item is empty. -/
lemma Item.size_pos (i : Item) : 0 < i.size := by
  have hhead : 0 < i.headSize := by
    cases i <;> simp only [headSize] <;> split_ifs <;> decide
  exact Nat.add_pos_left hhead _

/-- No item takes up the whole address space. -/
lemma Item.size_lt (i : Item) : i.size < 2 ^ 64 := by
  have hhead : i.headSize ≤ 9 := by
    cases i <;> simp only [headSize] <;> split_ifs <;> decide
  have hlen : i.len < 2 ^ 32 := by
    cases i with
    | map count => exact Nat.two_pow_pos 32
    | uint val => exact Nat.two_pow_pos 32
    | str ptr len => exact len.toNat_lt
    | bin ptr len => exact len.toNat_lt
  have hcontent := i.contentSize_le_len
  rw [size]
  omega

/-- Where an item ends. -/
lemma Item.toNat_putAll_chunks_pos (i : Item) (b : LumbreMsgpackBuf) :
    (b.putAll i.chunks).pos.toNat = (b.pos.toNat + i.size) % 2 ^ 64 := by
  have hlength : i.chunks.flatten.length = i.size := i.bytes_length
  rw [LumbreMsgpackBuf.putAll_pos, hlength, UInt64.toNat_add, toNat_counter, Nat.add_mod_mod]

/-- An item that is stored moves `pos`. -/
lemma Item.putAll_chunks_pos_ne (i : Item) (b : LumbreMsgpackBuf) :
    (b.putAll i.chunks).pos ≠ b.pos := by
  intro heq
  have hend := i.toNat_putAll_chunks_pos b
  have hpos := i.size_pos
  have hlt := i.size_lt
  have hbound := b.pos.toNat_lt
  rw [heq] at hend
  omega

/-- A key and a value: the key is refused, or the value is refused behind the key, or both are
stored. -/
lemma packAll_pair_cases (key value : Item) (b : LumbreMsgpackBuf) :
    (key.Refused b.pos.toNat b.capacity.toNat ∧ packAll [key, value] b = (-1, b)) ∨
      (¬ key.Refused b.pos.toNat b.capacity.toNat ∧
        ((value.Refused ((b.pos.toNat + key.size) % 2 ^ 64) b.capacity.toNat ∧
            packAll [key, value] b = (-1, b.putAll key.chunks)) ∨
          (¬ value.Refused ((b.pos.toNat + key.size) % 2 ^ 64) b.capacity.toNat ∧
            (packAll [key, value] b).1 = 0))) := by
  rcases key.pack_cases b with ⟨hkey, h⟩ | ⟨hkey, h⟩
  · exact Or.inl ⟨hkey, packAll_cons_of_refused h⟩
  · refine Or.inr ⟨hkey, ?_⟩
    have hvalue := value.pack_cases (b.putAll key.chunks)
    rw [key.toNat_putAll_chunks_pos, LumbreMsgpackBuf.putAll_capacity] at hvalue
    rw [packAll_cons_of_put h, packAll_singleton]
    rcases hvalue with ⟨hrefused, h'⟩ | ⟨hnot, h'⟩
    · exact Or.inl ⟨hrefused, h'⟩
    · exact Or.inr ⟨hnot, congrArg Prod.fst h'⟩

/-! ## Failure -/

/-- The buffer `b'` keeps what `b` holds: `pos` and the bytes below it. What was a stream of items
is one still, and items that fit behind it in `b` can be packed behind it in `b'`. -/
structure Kept (b b' : LumbreMsgpackBuf) : Prop where
  pos_eq : b'.pos = b.pos
  written_eq : b'.written = b.written
  reusable : ∀ ts, readTokens b.written = some ts → ∀ is : List Item,
    (∀ i ∈ is, i.Valid ∧ i.Short ∧ i.Representable) →
      b.pos.toNat + (is.map Item.size).sum ≤ b.capacity.toNat →
        (packAll is b').1 = 0 ∧
          readTokens (packAll is b').2.written = some (ts ++ is.map Item.token)

/-- A buffer that is left alone keeps what it holds. -/
lemma Kept.refl (b : LumbreMsgpackBuf) : Kept b b := by
  refine ⟨rfl, rfl, ?_⟩
  intro ts hread is hitems hfit
  have hcap := b.capacity.toNat_lt
  have hpos : b.pos ≤ b.capacity := by
    rw [UInt64.le_iff_toNat_le]
    omega
  have hlt : b.pos.toNat + (is.map Item.size).sum < 2 ^ 64 := by omega
  have hrc : (packAll is b).1 = 0 := (packAll_rc_iff hitems hpos hlt).mpr hfit
  have htokens : is.map Item.decoded = is.map Item.token := by
    rw [List.map_inj_left]
    intro i hi
    exact (Item.decoded_eq_token_iff (hitems i hi).2.2.not_unsupported).mpr (hitems i hi).2.2
  refine ⟨hrc, ?_⟩
  rw [readTokens_written_behind hread (fun i hi => (hitems i hi).1) hrc hlt, htokens]

namespace PackCall

/-- When the call fails, it keeps what the buffer holds. -/
def Atomic (c : PackCall) (b : LumbreMsgpackBuf) : Prop :=
  (c.run b).1 = -1 → Kept b (c.run b).2

/-- The call has a key and a value; the key is accepted, and behind it the value is refused. -/
def Torn (c : PackCall) (b : LumbreMsgpackBuf) : Prop :=
  match c.items with
  | [key, value] =>
      ¬ key.Refused b.pos.toNat b.capacity.toNat ∧
        value.Refused ((b.pos.toNat + key.size) % 2 ^ 64) b.capacity.toNat
  | _ => False

instance (c : PackCall) (b : LumbreMsgpackBuf) : Decidable (c.Torn b) := by
  unfold Torn
  split <;> infer_instance

/-- A call packs one item, or a string and a value behind it. -/
lemma items_cases (c : PackCall) :
    (∃ i, c.items = [i]) ∨ ∃ ptr len value, c.items = [.str ptr len, value] := by
  cases c with
  | map count => exact Or.inl ⟨_, rfl⟩
  | uint val => exact Or.inl ⟨_, rfl⟩
  | str ptr len => exact Or.inl ⟨_, rfl⟩
  | bin ptr len => exact Or.inl ⟨_, rfl⟩
  | strKv key keyLen val valLen => exact Or.inr ⟨key, keyLen, _, rfl⟩
  | uintKv key keyLen val => exact Or.inr ⟨key, keyLen, _, rfl⟩
  | binKv key keyLen data dataLen => exact Or.inr ⟨key, keyLen, _, rfl⟩

/-- **A call is atomic on failure exactly when it is not torn.** For any arguments and any buffer:
the four packers always are, and a key-value helper is unless its key is accepted and its value
refused. A torn call has moved `pos` behind the key. -/
theorem atomic_iff (c : PackCall) (b : LumbreMsgpackBuf) : c.Atomic b ↔ ¬ c.Torn b := by
  rw [Atomic, Torn, c.run_eq b]
  rcases c.items_cases with ⟨i, hitems⟩ | ⟨ptr, len, value, hitems⟩
  · rw [hitems, packAll_singleton]
    refine iff_of_true ?_ not_false
    intro hrc
    rcases i.pack_cases b with ⟨_, h⟩ | ⟨_, h⟩
    · rw [h]
      exact Kept.refl b
    · rw [h] at hrc
      exact absurd hrc (show (0 : ℤ) ≠ -1 by decide)
  · rw [hitems]
    rcases packAll_pair_cases (.str ptr len) value b with
      ⟨hkey, h⟩ | ⟨hkey, ⟨hvalue, h⟩ | ⟨hvalue, hrc⟩⟩
    · rw [h]
      exact iff_of_true (fun _ => Kept.refl b) fun htorn => htorn.1 hkey
    · rw [h]
      refine iff_of_false ?_ fun hnot => hnot ⟨hkey, hvalue⟩
      intro hatomic
      exact Item.putAll_chunks_pos_ne _ b (hatomic rfl).pos_eq
    · rw [hrc]
      refine iff_of_true ?_ fun htorn => hvalue htorn.2
      intro hfailed
      exact absurd hfailed (show (0 : ℤ) ≠ -1 by decide)

end PackCall

/-- A buffer of four bytes, empty. -/
def bufOfFour : LumbreMsgpackBuf := ⟨fun _ => 0, 4, 0, []⟩

/-- The key `"t"` with the value `300`: the key has two bytes, and the value does not fit in the two
that are left. The call fails and `pos` is `2`. -/
theorem uintKv_leaves_key :
    bufOfFour.pos ≤ bufOfFour.capacity ∧
      (∀ i ∈ (PackCall.uintKv (some fun _ => 0x74) 1 300).items, i.Valid ∧ i.Short) ∧
      ((PackCall.uintKv (some fun _ => 0x74) 1 300).run bufOfFour).1 = -1 ∧
      ((PackCall.uintKv (some fun _ => 0x74) 1 300).run bufOfFour).2.pos = 2 ∧
      ¬ (PackCall.uintKv (some fun _ => 0x74) 1 300).Atomic bufOfFour := by
  have hpos : ((PackCall.uintKv (some fun _ => 0x74) 1 300).run bufOfFour).2.pos = 2 := by
    decide
  refine ⟨by decide, ?_, by decide, hpos, ?_⟩
  · simp only [PackCall.items, List.forall_mem_cons]
    exact ⟨⟨fun _ => rfl, show 1 < 2 ^ 32 - 5 by decide⟩,
      ⟨trivial, show 0 < 2 ^ 32 - 5 by decide⟩, fun _ h => absurd h List.not_mem_nil⟩
  · intro hatomic
    have hkept := (hatomic (by decide)).pos_eq
    rw [hpos] at hkept
    exact absurd hkept (by decide)

/-- **A torn call leaves its key in the stream, with no value.** -/
theorem readTokens_torn {c : PackCall} {b : LumbreMsgpackBuf} {ts : List Token}
    (hcap : b.capacity.toNat ≤ 2 ^ 64 - 2 ^ 32) (hpos : b.pos ≤ b.capacity)
    (hitems : ∀ i ∈ c.items, i.Valid ∧ i.Short) (hread : readTokens b.written = some ts)
    (htorn : c.Torn b) :
    (c.run b).1 = -1 ∧
      ∃ key value, c.items = [key, value] ∧
        readTokens (c.run b).2.written = some (ts ++ [key.token]) := by
  rcases c.items_cases with ⟨i, heq⟩ | ⟨ptr, len, value, heq⟩
  · rw [PackCall.Torn, heq] at htorn
    exact htorn.elim
  rw [PackCall.Torn, heq] at htorn
  rw [heq] at hitems
  obtain ⟨hvalid, hshort⟩ := hitems (.str ptr len) List.mem_cons_self
  have hle := UInt64.le_iff_toNat_le.mp hpos
  have hlt : b.pos.toNat + (([.str ptr len] : List Item).map Item.size).sum < 2 ^ 64 := by
    have hsum := hshort.sum_lt
    have hcontent := (Item.str ptr len).contentSize_le_len
    rw [List.map_singleton, List.sum_singleton, Item.size]
    omega
  rcases packAll_pair_cases (.str ptr len) value b with ⟨hkey, _⟩ | ⟨_, ⟨_, h⟩ | ⟨hvalue, _⟩⟩
  · exact absurd hkey htorn.1
  · -- the key alone is a sequence that succeeds
    have hkey : packAll [.str ptr len] b = (0, b.putAll (Item.str ptr len).chunks) := by
      rw [packAll_singleton]
      exact ((Item.str ptr len).pack_cases b).resolve_left (fun h => htorn.1 h.1) |>.2
    have hstream := readTokens_written_behind hread
      (fun i hi => List.mem_singleton.mp hi ▸ hvalid) (congrArg Prod.fst hkey) hlt
    rw [hkey] at hstream
    rw [c.run_eq b, heq, h]
    exact ⟨rfl, .str ptr len, value, rfl, hstream⟩
  · exact absurd htorn.2 hvalue

end LumbreExt
