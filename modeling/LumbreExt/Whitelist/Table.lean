import LumbreExt.Whitelist.Basic

/-!
# The whitelist agrees with a linear scan

* `slots`, `homeSlot` — the array as a table of `Lib.OpenAddressing`, and the home slot of a key.
* `Built wl rows` — the table holds exactly the entries of the rows, as linear probing places them.
* `Built.insert`, `exists_built` — one iteration of `init` keeps it; `init` establishes it.
* `lumbreWhitelistMatch_eq_find` — a table of fewer than 64 rows with distinct keys finds what a
  linear scan of the rows finds, whatever the hashes; no probe loop takes more than 64 steps.
-/

namespace LumbreExt

open Lib Lib.OpenAddressing

/-! ## The array as a table -/

/-- The occupied slots of the array. -/
def slots (wl : LumbreWhitelist) : Table lumbreWhitelistSize LumbreWhitelistEntry :=
  fun s => if (wl.entries s).occupied = 0 then none else some (wl.entries s)

/-- The slot at which the walk for a key starts. -/
def homeSlot (key : List UInt8) : Fin lumbreWhitelistSize :=
  slotIndex (lumbreFnv1a key &&& lumbreWhitelistMask)

/-- The entry `init` stores for a row. -/
def rowEntry (src : LumbreWlStaticEntry) : LumbreWhitelistEntry :=
  src.entry (lumbreFnv1a src.key)

@[simp] lemma rowEntry_key (src : LumbreWlStaticEntry) : (rowEntry src).key = src.key := rfl

@[simp] lemma rowEntry_keyHash (src : LumbreWlStaticEntry) :
    (rowEntry src).keyHash = lumbreFnv1a src.key := rfl

/-- The table holds exactly the entries of the rows, where linear probing puts them. -/
structure Built (wl : LumbreWhitelist) (rows : List LumbreWlStaticEntry) : Prop where
  probed : Probed LumbreWhitelistEntry.key homeSlot (slots wl)
  holds : Holds (slots wl) (rows.map rowEntry)

/-- Masking the incremented slot number is one step around the table. -/
lemma slotIndex_nextSlot (slot : UInt32) :
    slotIndex (nextSlot slot) = following (slotIndex slot) := by
  have hmask : (nextSlot slot).toNat = (slot.toNat + 1) % 2 ^ 32 % 64 := by
    have hand := Nat.and_two_pow_sub_one_eq_mod ((slot.toNat + 1) % 2 ^ 32) 6
    rw [nextSlot, UInt32.toNat_and, UInt32.toNat_add]
    exact hand
  apply Fin.ext
  simp only [slotIndex, following, slotAt, hmask, lumbreWhitelistSize]
  omega

lemma built_zeroWhitelist : Built zeroWhitelist [] :=
  ⟨probed_empty _ _, holds_empty⟩

/-- The table with the entry of a row stored. -/
def LumbreWhitelist.store (wl : LumbreWhitelist) (s : Fin lumbreWhitelistSize)
    (src : LumbreWlStaticEntry) : LumbreWhitelist :=
  ⟨Function.update wl.entries s (rowEntry src)⟩

lemma slots_store (wl : LumbreWhitelist) (s : Fin lumbreWhitelistSize)
    (src : LumbreWlStaticEntry) :
    slots (wl.store s src) = Function.update (slots wl) s (some (rowEntry src)) := by
  funext s'
  rcases eq_or_ne s' s with rfl | hne
  · simp [slots, LumbreWhitelist.store, rowEntry, LumbreWlStaticEntry.entry]
  · simp [slots, LumbreWhitelist.store, Function.update_of_ne hne]

/-- An entry of the table is that of a row. -/
lemma Built.exists_row {wl : LumbreWhitelist} {rows : List LumbreWlStaticEntry} (h : Built wl rows)
    {s : Fin lumbreWhitelistSize} {e : LumbreWhitelistEntry} (he : slots wl s = some e) :
    ∃ src ∈ rows, rowEntry src = e := by
  have hmem := (h.holds e).mp ⟨s, he⟩
  simpa only [List.mem_map] using hmem

/-! ## Building -/

/-- The walk of `init` is the search for a free slot. -/
lemma lumbreWhitelistInsert_eq {src : LumbreWlStaticEntry} (hkey : src.key ≠ []) (fuel : ℕ)
    (wl : LumbreWhitelist) :
    lumbreWhitelistInsert fuel wl src =
      (freeSlot (slots wl) fuel (homeSlot src.key)).map fun s => wl.store s src := by
  have hlength : ¬ src.key.length = 0 := fun h => hkey (List.length_eq_zero_iff.mp h)
  have hstop : ∀ slot, (if (wl.entry slot).occupied ≠ 0 then none else some slot).map slotIndex =
      stopAtFree (slots wl) (slotIndex slot) := by
    intro slot
    rcases eq_or_ne (wl.entries (slotIndex slot)).occupied 0 with h | h <;>
      simp [slots, stopAtFree, LumbreWhitelist.entry, h]
  have hloop := loop_map slotIndex_nextSlot hstop fuel
    (lumbreFnv1a src.key &&& lumbreWhitelistMask)
  rw [freeSlot, homeSlot, ← hloop, Option.map_map, lumbreWhitelistInsert, if_neg hlength]
  rfl

/-- **One row is stored.** Its walk ends, and the table holds the row as well. -/
lemma Built.insert {wl : LumbreWhitelist} {rows : List LumbreWlStaticEntry} (h : Built wl rows)
    {src : LumbreWlStaticEntry} (hlength : rows.length < lumbreWhitelistSize)
    (hkey : src.key ≠ []) (hnew : ∀ r ∈ rows, r.key ≠ src.key) :
    ∃ wl', (∀ fuel, lumbreWhitelistSize ≤ fuel → lumbreWhitelistInsert fuel wl src = some wl') ∧
      Built wl' (rows ++ [src]) := by
  have hfree : ∃ s, slots wl s = none :=
    exists_free h.probed h.holds (by rw [List.length_map]; exact hlength)
  obtain ⟨d, hd, hnone, hoccupied, hwalk⟩ := freeSlot_eq hfree (homeSlot src.key)
  refine ⟨wl.store (slotAt (homeSlot src.key) d) src, ?_, ?_, ?_⟩
  · intro fuel hfuel
    rw [lumbreWhitelistInsert_eq hkey, hwalk fuel hfuel]
    rfl
  · have hother : ∀ s b, slots wl s = some b → b.key ≠ (rowEntry src).key := by
      intro s b hb
      obtain ⟨r, hr, rfl⟩ := h.exists_row hb
      exact hnew r hr
    rw [← rowEntry_key src] at hoccupied
    have hprobed := h.probed.insert hd hoccupied hother
    rw [rowEntry_key] at hprobed
    rw [slots_store]
    exact hprobed
  · rw [slots_store, List.map_append]
    exact h.holds.insert hnone

/-- **The loop of `init` ends, with all the rows in the table.** -/
lemma exists_built {wl : LumbreWhitelist} {done rows : List LumbreWlStaticEntry}
    (h : Built wl done) (hlength : (done ++ rows).length < lumbreWhitelistSize)
    (hkey : ∀ r ∈ rows, r.key ≠ [])
    (hnodup : ((done ++ rows).map LumbreWlStaticEntry.key).Nodup) :
    ∃ wl', (∀ fuel, lumbreWhitelistSize ≤ fuel →
        rows.foldlM (lumbreWhitelistInsert fuel) wl = some wl') ∧
      Built wl' (done ++ rows) := by
  induction rows generalizing wl done with
  | nil =>
      rw [List.append_nil]
      exact ⟨wl, fun _ _ => rfl, h⟩
  | cons src rows ih =>
      have hnew : ∀ r ∈ done, r.key ≠ src.key := by
        intro r hr
        rw [List.map_append, List.map_cons, List.nodup_append] at hnodup
        exact hnodup.2.2 _ (List.mem_map_of_mem hr) _ List.mem_cons_self
      have hdone : done.length < lumbreWhitelistSize := by
        rw [List.length_append] at hlength
        omega
      obtain ⟨wl₁, hinsert, hbuilt⟩ := h.insert hdone (hkey src List.mem_cons_self) hnew
      have hsplit : done ++ src :: rows = done ++ [src] ++ rows := by simp
      rw [hsplit] at hlength hnodup ⊢
      obtain ⟨wl', hrest, hbuilt'⟩ :=
        ih hbuilt hlength (fun r hr => hkey r (List.mem_cons_of_mem src hr)) hnodup
      refine ⟨wl', ?_, hbuilt'⟩
      intro fuel hfuel
      rw [List.foldlM_cons, hinsert fuel hfuel]
      exact hrest fuel hfuel

/-! ## Looking up -/

/-- An entry of a row is a hit exactly when its key is the one looked up. -/
lemma Built.isHit_iff {wl : LumbreWhitelist} {rows : List LumbreWlStaticEntry} (h : Built wl rows)
    (key : List UInt8) {s : Fin lumbreWhitelistSize} {e : LumbreWhitelistEntry}
    (he : slots wl s = some e) : e.isHit key = true ↔ e.key = key := by
  obtain ⟨src, _, rfl⟩ := h.exists_row he
  simp only [LumbreWhitelistEntry.isHit, Bool.and_eq_true, beq_iff_eq, rowEntry_keyHash,
    rowEntry_key]
  exact ⟨fun hhit => hhit.2.2, fun heq => heq ▸ ⟨rfl, rfl, rfl⟩⟩

/-- The walk of `match` is the lookup of a key. -/
lemma lumbreWhitelistProbe_eq (fuel : ℕ) (wl : LumbreWhitelist) (key : List UInt8) :
    lumbreWhitelistProbe fuel wl key =
      lookup (slots wl) (LumbreWhitelistEntry.isHit key) fuel (homeSlot key) := by
  have hstop : ∀ slot, (if (wl.entry slot).occupied = 0 then some none
      else if (wl.entry slot).isHit key then some (some (wl.entry slot)) else none).map id =
        stopAtHit (slots wl) (LumbreWhitelistEntry.isHit key) (slotIndex slot) := by
    intro slot
    rw [Option.map_id, id_eq]
    rcases eq_or_ne (wl.entry slot).occupied 0 with h | h
    · rw [if_pos h, stopAtHit_of_none (if_pos h)]
    · rw [if_neg h, stopAtHit_of_some (if_neg h)]
      rfl
  have hloop := loop_map slotIndex_nextSlot hstop fuel (lumbreFnv1a key &&& lumbreWhitelistMask)
  rw [Option.map_id, id_eq] at hloop
  rw [lookup, homeSlot, ← hloop]
  rfl

/-- A built table finds what a linear scan of its rows finds. -/
lemma Built.probe_eq_find {wl : LumbreWhitelist} {rows : List LumbreWlStaticEntry}
    (h : Built wl rows) (hlength : rows.length < lumbreWhitelistSize) (key : List UInt8)
    {fuel : ℕ} (hfuel : lumbreWhitelistSize ≤ fuel) :
    lumbreWhitelistProbe fuel wl key =
      some ((rows.find? fun r => r.key = key).map rowEntry) := by
  have hhit := fun s e (he : slots wl s = some e) => h.isHit_iff key he
  rw [lumbreWhitelistProbe_eq]
  cases hfind : rows.find? fun r => r.key = key with
  | none =>
      have hfree : ∃ s, slots wl s = none :=
        exists_free h.probed h.holds (by rw [List.length_map]; exact hlength)
      refine lookup_of_not_mem hfree hhit ?_ _ hfuel
      intro s e he
      obtain ⟨src, hsrc, rfl⟩ := h.exists_row he
      simpa using List.find?_eq_none.mp hfind src hsrc
  | some src =>
      have hsrc : src.key = key := by simpa using List.find?_some hfind
      obtain ⟨s, hs⟩ := (h.holds (rowEntry src)).mpr
        (List.mem_map_of_mem (List.mem_of_find?_eq_some hfind))
      exact h.probed.lookup_of_mem hhit hs hsrc hfuel

/-- An empty key is not looked up, and no row has it. -/
lemma Built.match_eq_find {wl : LumbreWhitelist} {rows : List LumbreWlStaticEntry}
    (h : Built wl rows) (hlength : rows.length < lumbreWhitelistSize)
    (hkey : ∀ r ∈ rows, r.key ≠ []) {fuel : ℕ} (hfuel : lumbreWhitelistSize ≤ fuel)
    (className : BytePtr) (classLen : ℕ) (funcName : BytePtr) (funcLen : ℕ) :
    lumbreWhitelistMatch fuel wl className classLen funcName funcLen =
      some ((rows.find? fun r =>
        r.key = lumbreWlBuildKey className classLen funcName funcLen).map rowEntry) := by
  have hprobe := h.probe_eq_find hlength (lumbreWlBuildKey className classLen funcName funcLen)
    hfuel
  rw [lumbreWhitelistMatch]
  split_ifs with hempty
  · have hnone : (rows.find? fun r =>
        r.key = lumbreWlBuildKey className classLen funcName funcLen) = none := by
      rw [List.find?_eq_none, List.length_eq_zero_iff.mp hempty]
      intro r hr
      simpa using hkey r hr
    rw [hnone]
    rfl
  · exact hprobe

/-- **The open-addressing table agrees with a linear scan.** For every table of fewer than 64 rows
with distinct, non-empty keys, the probe loops of `init` and `match` end within 64 steps, and
`match` returns the entry of the row with the query's key, or `NULL` when there is none. -/
theorem lumbreWhitelistMatch_eq_find {rows : List LumbreWlStaticEntry}
    (hlength : rows.length < lumbreWhitelistSize) (hkey : ∀ r ∈ rows, r.key ≠ [])
    (hnodup : (rows.map LumbreWlStaticEntry.key).Nodup) :
    ∃ wl, (∀ fuel, lumbreWhitelistSize ≤ fuel → lumbreWhitelistInit fuel rows = some wl) ∧
      ∀ fuel, lumbreWhitelistSize ≤ fuel → ∀ className classLen funcName funcLen,
        lumbreWhitelistMatch fuel wl className classLen funcName funcLen =
          some ((rows.find? fun r =>
            r.key = lumbreWlBuildKey className classLen funcName funcLen).map rowEntry) := by
  obtain ⟨wl, hinit, hbuilt⟩ := exists_built built_zeroWhitelist hlength hkey hnodup
  exact ⟨wl, hinit, fun fuel hfuel => hbuilt.match_eq_find hlength hkey hfuel⟩

/-! ## The built-in table -/

lemma lumbreWlStaticTable_nodup : (lumbreWlStaticTable.map LumbreWlStaticEntry.key).Nodup := by
  decide

lemma lumbreWlStaticTable_key_ne_nil : ∀ r ∈ lumbreWlStaticTable, r.key ≠ [] := by
  decide

lemma exists_built_builtin :
    ∃ wl, (∀ fuel, lumbreWhitelistSize ≤ fuel →
        lumbreWhitelistInit fuel lumbreWlStaticTable = some wl) ∧ Built wl lumbreWlStaticTable :=
  exists_built built_zeroWhitelist (by decide) lumbreWlStaticTable_key_ne_nil
    lumbreWlStaticTable_nodup

/-- The whitelist of the built-in table. -/
def builtinWhitelist : LumbreWhitelist :=
  (lumbreWhitelistInit lumbreWhitelistSize lumbreWlStaticTable).getD zeroWhitelist

lemma lumbreWhitelistInit_builtin :
    lumbreWhitelistInit lumbreWhitelistSize lumbreWlStaticTable = some builtinWhitelist := by
  obtain ⟨wl, hinit, _⟩ := exists_built_builtin
  rw [builtinWhitelist, hinit _ le_rfl]
  rfl

lemma built_builtinWhitelist : Built builtinWhitelist lumbreWlStaticTable := by
  obtain ⟨wl, hinit, hbuilt⟩ := exists_built_builtin
  rw [builtinWhitelist, hinit _ le_rfl]
  exact hbuilt

/-- The built-in table: a method is found in any case, a function that is not listed is not. -/
theorem lumbreWhitelistMatch_eq_find_builtin :
    ∃ wl, lumbreWhitelistInit lumbreWhitelistSize lumbreWlStaticTable = some wl ∧
      lumbreWhitelistMatch lumbreWhitelistSize wl (literal "pdo") 3 (literal "Query") 5 =
        some (some (rowEntry ⟨literal "PDO", 3, literal "query", 5, lumbreSpanDb⟩)) ∧
      lumbreWhitelistMatch lumbreWhitelistSize wl none 0 (literal "strlen") 6 = some none := by
  have hlength : lumbreWlStaticTable.length < lumbreWhitelistSize := by decide
  obtain ⟨wl, hinit, hmatch⟩ := lumbreWhitelistMatch_eq_find hlength lumbreWlStaticTable_key_ne_nil
    lumbreWlStaticTable_nodup
  refine ⟨wl, hinit _ le_rfl, ?_, ?_⟩
  · rw [hmatch _ le_rfl]
    rfl
  · rw [hmatch _ le_rfl]
    rfl

end LumbreExt
