import LumbreExt.Msgpack.Items

/-!
# Where the packer stores

* `InBounds` — a sequence of packer calls stores below `capacity` only, leaves `pos ≤ capacity`, and
  when all succeed advances `pos` by the sizes of the items.
* `Fits` — laid out from `pos` on, each item is refused by the space check, or neither of the two sums
  of the check wraps, or there is room all the same. The check sums in `uint32_t` and then in
  `size_t`; `Item.Refused` keeps both wraps.
* `PackCall.inBounds_iff` — a call is in bounds exactly when its items fit. The 32-bit sum `5 + len`
  wraps for the last five lengths, and then the check passes for any buffer
  (`str_length_wraps_space_check`).
* `not_fits_cons_iff`, `Item.overruns_iff` — which lengths and positions fail: an item overruns the
  buffer when one of the two sums wraps around to a value that the buffer has room for.
* `fits_of_short` — away from those lengths, and on a buffer that is not within `2 ^ 32` bytes of the
  whole address space, every sequence of items fits.
-/

namespace LumbreExt

open Lib

/-! ## The stores of a call -/

/-- The stores performed between `b` and a later state `b'`. -/
def storesSince (b b' : LumbreMsgpackBuf) : List (ℕ × UInt8) :=
  b'.stores.drop b.stores.length

lemma storesSince_eq {b b' : LumbreMsgpackBuf} {new : List (ℕ × UInt8)}
    (h : b'.stores = b.stores ++ new) : storesSince b b' = new := by
  rw [storesSince, h, List.drop_left]

@[simp] lemma storesSince_self (b : LumbreMsgpackBuf) : storesSince b b = [] :=
  List.drop_length

lemma storesSince_put (b : LumbreMsgpackBuf) (bs : List UInt8) :
    storesSince b (b.put bs) = copyStores b.pos.toNat bs :=
  storesSince_eq rfl

/-- Stores are never taken back. -/
def Extends (b b' : LumbreMsgpackBuf) : Prop := b.stores <+: b'.stores

lemma Extends.trans {b b' b'' : LumbreMsgpackBuf} (h : Extends b b') (h' : Extends b' b'') :
    Extends b b'' := List.IsPrefix.trans h h'

lemma extends_putAll (b : LumbreMsgpackBuf) (cs : List (List UInt8)) :
    Extends b (b.putAll cs) := by
  induction cs generalizing b with
  | nil => exact List.prefix_rfl
  | cons c cs ih => exact List.IsPrefix.trans (List.prefix_append _ _) (ih (b.put c))

lemma extends_packAll (is : List Item) (b : LumbreMsgpackBuf) : Extends b (packAll is b).2 := by
  induction is generalizing b with
  | nil => exact List.prefix_rfl
  | cons i is ih =>
      rcases i.pack_cases b with ⟨_, h⟩ | ⟨_, h⟩
      · rw [packAll_cons_of_refused h]
        exact List.prefix_rfl
      · rw [packAll_cons_of_put h]
        exact (extends_putAll b i.chunks).trans (ih _)

/-- The stores of two stretches are those of the first and then those of the second. -/
lemma storesSince_trans {b b' b'' : LumbreMsgpackBuf} (h : Extends b b') (h' : Extends b' b'') :
    storesSince b b'' = storesSince b b' ++ storesSince b' b'' := by
  obtain ⟨new, hnew⟩ := h
  obtain ⟨new', hnew'⟩ := h'
  have hall : b''.stores = b.stores ++ (new ++ new') := by
    rw [← hnew', ← hnew, List.append_assoc]
  rw [storesSince_eq hall, storesSince_eq hnew.symm, storesSince_eq hnew'.symm]

/-- Chunks that do not fit are stored over the end: the first one that crosses it has its last byte
there, and up to it nothing has wrapped. -/
lemma exists_store_past_end {cs : List (List UInt8)} {b : LumbreMsgpackBuf}
    (hne : ∀ c ∈ cs, c ≠ []) (hpos : b.pos.toNat ≤ b.capacity.toNat)
    (hover : b.capacity.toNat < b.pos.toNat + cs.flatten.length) :
    ∃ s ∈ storesSince b (b.putAll cs), b.capacity.toNat ≤ s.1 := by
  have hcap : b.capacity.toNat < 2 ^ 64 := b.capacity.toNat_lt
  induction cs generalizing b with
  | nil =>
      rw [List.flatten_nil, List.length_nil] at hover
      omega
  | cons c cs ih =>
      have hput : Extends b (b.put c) := List.prefix_append _ _
      have hsplit := storesSince_trans hput (extends_putAll (b.put c) cs)
      rw [List.flatten_cons, List.length_append] at hover
      rw [LumbreMsgpackBuf.putAll_cons, hsplit, storesSince_put]
      rcases Nat.lt_or_ge b.capacity.toNat (b.pos.toNat + c.length) with hcross | hfit
      · have hlen := List.length_pos_iff.mpr (hne c List.mem_cons_self)
        have hlast : b.pos.toNat + c.length - 1 ∈ (copyStores b.pos.toNat c).map Prod.fst :=
          mem_copyStores_fst.mpr ⟨by omega, by omega⟩
        obtain ⟨s, hs, hs₁⟩ := List.mem_map.mp hlast
        exact ⟨s, List.mem_append_left _ hs, by omega⟩
      · have hadvance : (b.put c).pos.toNat = b.pos.toNat + c.length :=
          LumbreMsgpackBuf.toNat_put_pos (by omega)
        obtain ⟨s, hs, hle⟩ := ih (b := b.put c) (fun d hd => hne d (List.mem_cons_of_mem c hd))
          (by rw [hadvance]; exact hfit) (by rw [hadvance]; exact Nat.add_assoc _ _ _ ▸ hover)
          hcap
        exact ⟨s, List.mem_append_right _ hs, hle⟩

/-! ## Bounds -/

/-- The calls store below `capacity` only, leave `pos ≤ capacity`, and when all succeed advance
`pos` by the sizes of the items. -/
structure InBounds (is : List Item) (b : LumbreMsgpackBuf) (r : ℤ × LumbreMsgpackBuf) : Prop where
  stores_lt : ∀ s ∈ storesSince b r.2, s.1 < b.capacity.toNat
  pos_le : r.2.pos ≤ b.capacity
  pos_eq : r.1 = 0 → r.2.pos.toNat = b.pos.toNat + (is.map Item.size).sum

/-- Neither the 32-bit nor the 64-bit sum of the space check wraps. -/
def Item.SumsExact (pos : ℕ) (i : Item) : Prop :=
  i.headSize + i.len < 2 ^ 32 ∧ pos + (i.headSize + i.len) < 2 ^ 64

instance (pos : ℕ) (i : Item) : Decidable (i.SumsExact pos) := by
  unfold Item.SumsExact
  infer_instance

/-- Laid out from `pos` on, each item is refused, which ends the sequence, or has a check whose sums
are exact, or ends at or below `cap` although they are not. -/
def Fits (cap : ℕ) : ℕ → List Item → Prop
  | _, [] => True
  | pos, i :: is =>
      i.Refused pos cap ∨
        ((i.SumsExact pos ∨ pos + i.size ≤ cap) ∧ Fits cap (pos + i.size) is)

instance decidableFits (cap : ℕ) : ∀ (pos : ℕ) (is : List Item), Decidable (Fits cap pos is)
  | _, [] => isTrue trivial
  | pos, i :: is =>
      have := decidableFits cap (pos + i.size) is
      inferInstanceAs (Decidable (_ ∨ ((_ ∨ _) ∧ _)))

lemma Item.contentSize_le_len (i : Item) : i.contentSize ≤ i.len := by
  cases i with
  | map _ => exact le_rfl
  | uint _ => exact le_rfl
  | str ptr len =>
      simp only [contentSize, Item.len]
      split_ifs <;> omega
  | bin ptr len =>
      simp only [contentSize, Item.len]
      split_ifs <;> omega

/-- A check whose sums are exact accepts only what fits. -/
lemma Item.SumsExact.fits {pos cap : ℕ} {i : Item} (h : i.SumsExact pos)
    (hnot : ¬ i.Refused pos cap) : pos + i.size ≤ cap := by
  obtain ⟨h32, h64⟩ := h
  have hcontent := i.contentSize_le_len
  have hsum := (not_or.mp hnot).2
  rw [declared, Nat.mod_eq_of_lt h32, Nat.mod_eq_of_lt h64] at hsum
  rw [size]
  omega

/-- An item fits when it is refused, or ends at or below `cap`. -/
lemma fits_cons_iff {cap pos : ℕ} {i : Item} {is : List Item} :
    Fits cap pos (i :: is) ↔
      i.Refused pos cap ∨ pos + i.size ≤ cap ∧ Fits cap (pos + i.size) is := by
  constructor
  · rintro (hrefused | ⟨hexact | hroom, hrest⟩)
    · exact Or.inl hrefused
    · rcases Decidable.em (i.Refused pos cap) with hrefused | hnot
      · exact Or.inl hrefused
      · exact Or.inr ⟨hexact.fits hnot, hrest⟩
    · exact Or.inr ⟨hroom, hrest⟩
  · rintro (hrefused | ⟨hroom, hrest⟩)
    · exact Or.inl hrefused
    · exact Or.inr ⟨Or.inr hroom, hrest⟩

/-- Behind an item that was stored in bounds, the bounds are those of the other items. -/
lemma inBounds_cons_iff {i : Item} {is : List Item} {b b' : LumbreMsgpackBuf}
    {r : ℤ × LumbreMsgpackBuf} (hcapacity : b'.capacity = b.capacity)
    (hadvance : b'.pos.toNat = b.pos.toNat + i.size)
    (hstores : ∀ s ∈ storesSince b b', s.1 < b.capacity.toNat)
    (hsplit : storesSince b r.2 = storesSince b b' ++ storesSince b' r.2) :
    InBounds (i :: is) b r ↔ InBounds is b' r := by
  have hsum : b.pos.toNat + ((i :: is).map Item.size).sum =
      b'.pos.toNat + (is.map Item.size).sum := by
    rw [hadvance, List.map_cons, List.sum_cons, Nat.add_assoc]
  constructor
  · rintro ⟨hlt, hle, heq⟩
    refine ⟨?_, ?_, fun hrc => (heq hrc).trans hsum⟩
    · intro s hs
      rw [hcapacity]
      exact hlt s (by rw [hsplit]; exact List.mem_append_right _ hs)
    · rw [hcapacity]
      exact hle
  · rintro ⟨hlt, hle, heq⟩
    rw [hcapacity] at hlt hle
    refine ⟨?_, hle, fun hrc => (heq hrc).trans hsum.symm⟩
    intro s hs
    rw [hsplit] at hs
    exact (List.mem_append.mp hs).elim (hstores s) (hlt s)

/-- **Packing is in bounds exactly when the items fit.** -/
lemma packAll_inBounds_iff {b : LumbreMsgpackBuf} (hpos : b.pos ≤ b.capacity) (is : List Item) :
    InBounds is b (packAll is b) ↔ Fits b.capacity.toNat b.pos.toNat is := by
  induction is generalizing b with
  | nil => exact ⟨fun _ => trivial, fun _ => ⟨by simp [packAll], hpos, fun _ => rfl⟩⟩
  | cons i is ih =>
      have hposNat := UInt64.le_iff_toNat_le.mp hpos
      have hcap : b.capacity.toNat < 2 ^ 64 := b.capacity.toNat_lt
      have hlength : i.chunks.flatten.length = i.size := i.bytes_length
      rcases i.pack_cases b with ⟨hrefused, hpack⟩ | ⟨hnot, hpack⟩
      · -- refused: nothing is stored
        rw [packAll_cons_of_refused hpack]
        refine ⟨fun _ => Or.inl hrefused, fun _ => ⟨by simp, hpos, ?_⟩⟩
        intro hrc
        exact absurd hrc (Int.neg_ne_zero.mpr Int.one_ne_zero)
      rw [packAll_cons_of_put hpack, fits_cons_iff]
      have hextends := extends_putAll b i.chunks
      have hsplit := storesSince_trans hextends (extends_packAll is (b.putAll i.chunks))
      rcases Nat.lt_or_ge b.capacity.toNat (b.pos.toNat + i.size) with hover | hfit
      · -- accepted although it does not fit
        obtain ⟨s, hs, hle⟩ := exists_store_past_end (fun c hc => Item.ne_nil_of_mem_chunks hc)
          hposNat (by rw [hlength]; exact hover)
        constructor
        · intro hin
          have hlt := hin.stores_lt s (by rw [hsplit]; exact List.mem_append_left _ hs)
          omega
        · rintro (hrefused | ⟨hroom, _⟩)
          · exact absurd hrefused hnot
          · omega
      · -- accepted and fits: the rest starts behind it
        obtain ⟨hput, hadvance⟩ := Item.putAll_chunks (i := i) (b := b) (by omega)
        have hstores : ∀ s ∈ storesSince b (b.putAll i.chunks), s.1 < b.capacity.toNat := by
          intro s hs
          rw [hput, storesSince_put] at hs
          have hbounds := bounds_of_mem_copyStores hs
          rw [i.bytes_length] at hbounds
          omega
        have hposLe : (b.putAll i.chunks).pos ≤ (b.putAll i.chunks).capacity := by
          rw [LumbreMsgpackBuf.putAll_capacity, UInt64.le_iff_toNat_le, hadvance]
          exact hfit
        have hrest := ih hposLe
        rw [LumbreMsgpackBuf.putAll_capacity, hadvance] at hrest
        rw [inBounds_cons_iff (LumbreMsgpackBuf.putAll_capacity b i.chunks) hadvance hstores hsplit,
          hrest]
        exact ⟨fun hfits => Or.inr ⟨hfit, hfits⟩, fun h => (h.resolve_left hnot).2⟩

/-- **A call of the packer interface stays inside the buffer exactly when its items fit.** For any
arguments, and any buffer with `pos ≤ capacity`. -/
theorem PackCall.inBounds_iff {b : LumbreMsgpackBuf} (hpos : b.pos ≤ b.capacity) (c : PackCall) :
    InBounds c.items b (c.run b) ↔ Fits b.capacity.toNat b.pos.toNat c.items := by
  rw [c.run_eq b]
  exact packAll_inBounds_iff hpos c.items

/-- A buffer of 16 bytes, empty. -/
def bufOfSixteen : LumbreMsgpackBuf := ⟨fun _ => 0, 16, 0, []⟩

/-- The criterion on a short string in a buffer of 16 bytes. -/
theorem PackCall.inBounds_iff_short_string :
    InBounds [.str (some fun _ => 0x61) 3] bufOfSixteen
      ((PackCall.str (some fun _ => 0x61) 3).run bufOfSixteen) :=
  (PackCall.inBounds_iff (b := bufOfSixteen) (by decide) (.str (some fun _ => 0x61) 3)).mpr
    (Or.inr ⟨Or.inl (by decide), trivial⟩)

/-- A string of `2 ^ 32 - 5` bytes passes the space check of a 16-byte buffer: `5 + len` is `0`. -/
theorem str_length_wraps_space_check :
    bufOfSixteen.pos ≤ bufOfSixteen.capacity ∧
      ¬ InBounds [.str (some fun _ => 0x61) 0xFFFFFFFB] bufOfSixteen
        ((PackCall.str (some fun _ => 0x61) 0xFFFFFFFB).run bufOfSixteen) := by
  refine ⟨by decide, ?_⟩
  rw [PackCall.run_eq]
  change ¬ InBounds [.str (some fun _ => 0x61) 0xFFFFFFFB] bufOfSixteen
    (packAll [.str (some fun _ => 0x61) 0xFFFFFFFB] bufOfSixteen)
  rw [packAll_inBounds_iff (by decide)]
  decide

/-! ## The lengths and positions that fail -/

/-- The space check accepts the item, and it does not end at or below `cap`. -/
def Item.Overruns (pos cap : ℕ) (i : Item) : Prop := ¬ i.Refused pos cap ∧ cap < pos + i.size

/-- Items do not fit when the first one overruns, or the others do not fit behind it. -/
lemma not_fits_cons_iff {cap pos : ℕ} {i : Item} {is : List Item} :
    ¬ Fits cap pos (i :: is) ↔
      i.Overruns pos cap ∨ ¬ i.Refused pos cap ∧ ¬ Fits cap (pos + i.size) is := by
  rw [fits_cons_iff, Item.Overruns, not_or, Classical.not_and_iff_not_or_not, Nat.not_le,
    and_or_left]

lemma Item.headSize_str {ptr : Option (ℕ → UInt8)} {len : UInt32} (h : 0xFFFF < len.toNat) :
    (Item.str ptr len).headSize = 5 := by
  have hlarge : ¬ len ≤ 0xFFFF := mt UInt32.le_iff_toNat_le.mp (Nat.not_le.mpr h)
  have hsmall : ¬ len < 32 := fun hlt =>
    hlarge (UInt32.le_of_lt (UInt32.lt_trans hlt (by decide)))
  rw [headSize, if_neg hsmall, if_neg hlarge]

/-- The 32-bit sum wraps for the last five lengths of a string only. -/
lemma Item.wraps_iff {i : Item} (h : ¬ i.Unsupported) :
    2 ^ 32 ≤ i.headSize + i.len ↔ ∃ ptr len, i = .str ptr len ∧ 2 ^ 32 - 5 ≤ len.toNat := by
  constructor
  · intro hwraps
    cases i with
    | map count =>
        simp only [headSize, Item.len] at hwraps
        split_ifs at hwraps <;> omega
    | uint val =>
        simp only [headSize, Item.len] at hwraps
        split_ifs at hwraps <;> omega
    | str ptr len =>
        refine ⟨ptr, len, rfl, ?_⟩
        simp only [headSize, Item.len] at hwraps
        split_ifs at hwraps <;> omega
    | bin ptr len =>
        have hlen : len.toNat ≤ 0xFFFF := Nat.not_lt.mp h
        simp only [headSize, Item.len] at hwraps
        split_ifs at hwraps <;> omega
  · rintro ⟨ptr, len, rfl, hlen⟩
    rw [headSize_str (by omega), Item.len]
    omega

/-- **The lengths and positions that fail.** An item overruns the buffer exactly when it does not end
at or below `cap` and either is a string of one of the last five lengths for whose wrapped sum there
is room, or ends its declared size behind the address space. -/
lemma Item.overruns_iff {pos cap : ℕ} {i : Item} (hpos : pos ≤ cap) (hcap : cap < 2 ^ 64) :
    i.Overruns pos cap ↔ cap < pos + i.size ∧
      ((∃ ptr len, i = .str ptr len ∧ 2 ^ 32 - 5 ≤ len.toNat ∧
          (pos + (len.toNat - (2 ^ 32 - 5))) % 2 ^ 64 ≤ cap) ∨
        ¬ i.Unsupported ∧ i.headSize + i.len < 2 ^ 32 ∧
          2 ^ 64 ≤ pos + (i.headSize + i.len)) := by
  rw [Overruns, and_comm, and_congr_right_iff]
  intro hover
  rcases Decidable.em i.Unsupported with hno | hform
  · -- refused whatever the sums are
    refine iff_of_false (fun hnot => hnot (Or.inl hno)) ?_
    rintro (⟨_, _, rfl, _⟩ | ⟨hform, _⟩)
    · exact hno
    · exact hform hno
  have haccepted : ¬ i.Refused pos cap ↔ (pos + i.declared) % 2 ^ 64 ≤ cap := by
    rw [Refused, or_iff_right hform, Nat.not_lt]
  rw [haccepted]
  rcases Nat.lt_or_ge (i.headSize + i.len) (2 ^ 32) with hsum | hwraps
  · -- the 32-bit sum is exact
    have hshort : ¬ ∃ ptr len, i = .str ptr len ∧ 2 ^ 32 - 5 ≤ len.toNat ∧
        (pos + (len.toNat - (2 ^ 32 - 5))) % 2 ^ 64 ≤ cap := by
      rintro ⟨ptr, len, hi, hlen, _⟩
      have hwraps := (wraps_iff hform).mpr ⟨ptr, len, hi, hlen⟩
      omega
    have hcontent := i.contentSize_le_len
    rw [or_iff_right hshort, declared, Nat.mod_eq_of_lt hsum]
    rw [size] at hover
    constructor
    · intro hle
      exact ⟨hform, hsum, by omega⟩
    · rintro ⟨_, _, hend⟩
      omega
  · obtain ⟨ptr, len, rfl, hlen⟩ := (wraps_iff hform).mp hwraps
    have hdeclared : (Item.str ptr len).declared = len.toNat - (2 ^ 32 - 5) := by
      have hlt := len.toNat_lt
      rw [declared, headSize_str (by omega), Item.len]
      omega
    rw [hdeclared]
    constructor
    · exact fun hle => Or.inl ⟨ptr, len, rfl, hlen, hle⟩
    · rintro (⟨_, _, heq, _, hle⟩ | ⟨_, hsum, _⟩)
      · obtain ⟨_, rfl⟩ := Item.str.inj heq
        exact hle
      · omega

/-- The length is not one of the last five of its type. -/
def Item.Short (i : Item) : Prop := i.len < 2 ^ 32 - 5

lemma Item.Short.sum_lt {i : Item} (h : i.Short) : i.headSize + i.len < 2 ^ 32 := by
  cases i <;> simp only [headSize, Item.len, Short] at * <;> split_ifs <;> omega

/-- **Short items always fit** in a buffer whose capacity is not among the last `2 ^ 32` values. -/
theorem fits_of_short {cap pos : ℕ} {is : List Item} (hcap : cap ≤ 2 ^ 64 - 2 ^ 32)
    (hpos : pos ≤ cap) (hshort : ∀ i ∈ is, i.Short) : Fits cap pos is := by
  induction is generalizing pos with
  | nil => trivial
  | cons i is ih =>
      have hsum := (hshort i List.mem_cons_self).sum_lt
      have hover : ¬ i.Overruns pos cap := by
        rw [Item.overruns_iff hpos (by omega)]
        rintro ⟨_, ⟨ptr, len, rfl, hlen, _⟩ | ⟨_, _, hend⟩⟩
        · exact absurd (hshort _ List.mem_cons_self) (Nat.not_lt.mpr hlen)
        · omega
      by_contra hnot
      rcases not_fits_cons_iff.mp hnot with hover' | ⟨haccepted, hrest⟩
      · exact hover hover'
      · have hroom := Nat.not_lt.mp fun hlt => hover ⟨haccepted, hlt⟩
        exact hrest (ih hroom fun j hj => hshort j (List.mem_cons_of_mem i hj))

end LumbreExt
