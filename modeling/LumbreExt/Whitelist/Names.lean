import LumbreExt.Lib.Ascii
import LumbreExt.Whitelist.Table

/-!
# Matching is equality of names up to case

The lookup compares keys; a key determines the names it was built from, up to the case of ASCII
letters, as long as the names contain no colon.

* `nameKey` — the key of a class and a function name, as byte strings.
* `nameKey_eq_iff` — two keys are equal exactly when the names are, up to case.
* `LumbreWlStaticEntry.Named` — the names of a row are these, up to case.
* `lumbreWhitelistMatch_iff_named` — `match` on the built-in table finds a row exactly when its names
  are those of the query.
-/

namespace LumbreExt

open Lib

/-- The colon. -/
def colon : UInt8 := 0x3A

/-- The two folds are one. -/
lemma lowerAscii_eq (c : UInt8) : lowerAscii c = lower c :=
  forall_byte (P := fun c => lowerAscii c = lower c) (by decide +kernel) c

/-! ## Keys of names -/

/-- The key of a class name and a function name; without a class the class name is empty. -/
def nameKey (cls func : List UInt8) : List UInt8 :=
  if cls = [] then
    if func.length ≥ lumbreWlKeyBufSize then [] else func.map lower
  else if cls.length + 2 + func.length ≥ lumbreWlKeyBufSize then []
  else cls.map lower ++ colon :: colon :: func.map lower

/-- The key builder works on the names its arguments point to. -/
lemma lumbreWlBuildKey_eq_nameKey (className : BytePtr) (classLen : ℕ) (func : Mem)
    (funcLen : ℕ) :
    lumbreWlBuildKey className classLen (some func) funcLen =
      nameKey (className.read classLen) (func.load 0 funcLen) := by
  have hfold : ∀ bs : List UInt8, bs.map lowerAscii = bs.map lower := fun bs =>
    List.map_congr_left fun c _ => lowerAscii_eq c
  have hlength : (func.load 0 funcLen).length = funcLen := Mem.load_length func 0 funcLen
  have hfunc : BytePtr.read (some func) funcLen = func.load 0 funcLen := rfl
  unfold lumbreWlBuildKey nameKey
  rw [hfold, hfold, hlength, hfunc]
  cases className with
  | none =>
      have hempty : BytePtr.read none classLen = [] := rfl
      rw [if_neg (fun h => h.1 rfl), if_pos hempty]
  | some m =>
      have hread : (BytePtr.read (some m) classLen).length = classLen := Mem.load_length m 0 classLen
      by_cases hzero : classLen = 0
      · have hempty : BytePtr.read (some m) classLen = [] := by
          rw [hzero]
          rfl
        rw [if_neg (fun h => by omega), if_pos hempty]
      · have hne : BytePtr.read (some m) classLen ≠ [] := by
          intro h
          rw [h] at hread
          exact hzero hread.symm
        rw [if_pos ⟨Option.some_ne_none m, Nat.pos_of_ne_zero hzero⟩, if_neg hne, hread,
          List.append_assoc]
        rfl

lemma lower_eq_colon_iff (a : UInt8) : lower a = colon ↔ a = colon :=
  forall_byte (P := fun a => lower a = colon ↔ a = colon) (by decide +kernel) a

lemma colon_not_mem_map_lower {bs : List UInt8} (h : colon ∉ bs) : colon ∉ bs.map lower := by
  rw [List.mem_map]
  rintro ⟨a, ha, heq⟩
  rw [(lower_eq_colon_iff a).mp heq] at ha
  exact h ha

lemma colon_not_mem_of_eqFold {xs ys : List UInt8} (h : EqFold xs ys) (hxs : colon ∉ xs) :
    colon ∉ ys :=
  fun hmem => hxs ((h.mem_iff lower_eq_colon_iff).mpr hmem)

/-- Names that are equal up to case have one key. -/
lemma nameKey_congr {cls cls' func func' : List UInt8} (hcls : EqFold cls cls')
    (hfunc : EqFold func func') : nameKey cls func = nameKey cls' func' := by
  have hempty : cls = [] ↔ cls' = [] := by
    rw [← List.length_eq_zero_iff, ← List.length_eq_zero_iff, hcls.length_eq]
  unfold nameKey
  rw [hcls.length_eq, hfunc.length_eq, hcls, hfunc]
  simp only [hempty]

/-- A key that is not empty is the folded name, or the two folded names with two colons between. -/
lemma nameKey_of_ne_nil {cls func : List UInt8} (h : nameKey cls func ≠ []) :
    (cls = [] ∧ nameKey cls func = func.map lower) ∨
      (cls ≠ [] ∧ nameKey cls func = cls.map lower ++ colon :: colon :: func.map lower) := by
  unfold nameKey at h ⊢
  by_cases hcls : cls = []
  · rw [if_pos hcls] at h ⊢
    by_cases hlong : func.length ≥ lumbreWlKeyBufSize
    · exact absurd (if_pos hlong) h
    · exact Or.inl ⟨hcls, if_neg hlong⟩
  · rw [if_neg hcls] at h ⊢
    by_cases hlong : cls.length + 2 + func.length ≥ lumbreWlKeyBufSize
    · exact absurd (if_pos hlong) h
    · exact Or.inr ⟨hcls, if_neg hlong⟩

/-- **A key determines the names, up to case.** For names without a colon, and a key that is not
empty: it has no colon, or is split at its first one. -/
lemma nameKey_eq_iff {cls cls' func func' : List UInt8} (hcls : colon ∉ cls) (hcls' : colon ∉ cls')
    (hfunc : colon ∉ func) (hfunc' : colon ∉ func') (hkey : nameKey cls func ≠ []) :
    nameKey cls func = nameKey cls' func' ↔ EqFold cls cls' ∧ EqFold func func' := by
  refine ⟨?_, fun h => nameKey_congr h.1 h.2⟩
  intro heq
  have hkey' : nameKey cls' func' ≠ [] := heq ▸ hkey
  have hcolon : ∀ xs ys : List UInt8, colon ∈ xs ++ colon :: ys := fun xs ys =>
    List.mem_append_right xs List.mem_cons_self
  rcases nameKey_of_ne_nil hkey with ⟨rfl, hform⟩ | ⟨_, hform⟩
  · rcases nameKey_of_ne_nil hkey' with ⟨rfl, hform'⟩ | ⟨_, hform'⟩
    · exact ⟨EqFold.refl [], hform.symm.trans (heq.trans hform')⟩
    · -- a function against a method: only the method's key has a colon
      have hmem := hcolon (cls'.map lower) (colon :: func'.map lower)
      rw [← hform', ← heq, hform] at hmem
      exact absurd hmem (colon_not_mem_map_lower hfunc)
  · rcases nameKey_of_ne_nil hkey' with ⟨rfl, hform'⟩ | ⟨_, hform'⟩
    · have hmem := hcolon (cls.map lower) (colon :: func.map lower)
      rw [← hform, heq, hform'] at hmem
      exact absurd hmem (colon_not_mem_map_lower hfunc')
    · rw [hform, hform'] at heq
      obtain ⟨hclasses, hrest⟩ := append_cons_inj (colon_not_mem_map_lower hcls)
        (colon_not_mem_map_lower hcls') heq
      exact ⟨hclasses, List.tail_eq_of_cons_eq hrest⟩

/-! ## The built-in table -/

/-- The class name of a row; empty for a function. -/
def LumbreWlStaticEntry.classBytes (src : LumbreWlStaticEntry) : List UInt8 :=
  src.className.read src.classLen.toNat

/-- The function name of a row. -/
def LumbreWlStaticEntry.funcBytes (src : LumbreWlStaticEntry) : List UInt8 :=
  src.funcName.read src.funcLen.toNat

/-- The names of the row are these, up to the case of ASCII letters. -/
def LumbreWlStaticEntry.Named (src : LumbreWlStaticEntry) (cls func : List UInt8) : Prop :=
  EqFold src.classBytes cls ∧ EqFold src.funcBytes func

instance (src : LumbreWlStaticEntry) (cls func : List UInt8) : Decidable (src.Named cls func) :=
  inferInstanceAs (Decidable (_ ∧ _))

/-- Names are matched up to their case. -/
lemma LumbreWlStaticEntry.named_congr (src : LumbreWlStaticEntry) {cls cls' func func' : List UInt8}
    (hcls : EqFold cls cls') (hfunc : EqFold func func') :
    src.Named cls func ↔ src.Named cls' func' := by
  unfold LumbreWlStaticEntry.Named EqFold at *
  rw [hcls, hfunc]

lemma lumbreWlStaticTable_colon :
    ∀ r ∈ lumbreWlStaticTable, colon ∉ r.classBytes ∧ colon ∉ r.funcBytes := by
  decide

/-- The key of a row is that of its names. -/
lemma lumbreWlStaticTable_key :
    ∀ r ∈ lumbreWlStaticTable, r.key = nameKey r.classBytes r.funcBytes := by
  decide

/-- The scan for a key stops at its row: no other row has it. -/
lemma find_key_eq {key : List UInt8} {r : LumbreWlStaticEntry} (hr : r ∈ lumbreWlStaticTable)
    (hkey : r.key = key) : lumbreWlStaticTable.find? (fun r => r.key = key) = some r := by
  cases hfind : lumbreWlStaticTable.find? fun r => r.key = key with
  | none =>
      have hno := List.find?_eq_none.mp hfind r hr
      exact absurd (decide_eq_true hkey) hno
  | some r' =>
      have hkey' : r'.key = key := by simpa using List.find?_some hfind
      have heq := List.inj_on_of_nodup_map lumbreWlStaticTable_nodup hr
        (List.mem_of_find?_eq_some hfind) (hkey.trans hkey'.symm)
      rw [heq]

/-- **Matching is equality of names up to ASCII case.** For a class name that may be `NULL`, and names
of any length and any bytes but colons, `match` ends and returns the entry of the row that has these
names, or `NULL` when no row has. -/
theorem lumbreWhitelistMatch_iff_named {fuel : ℕ} (hfuel : lumbreWhitelistSize ≤ fuel)
    (className : BytePtr) (classLen : ℕ) (func : Mem) (funcLen : ℕ)
    (hcls : colon ∉ className.read classLen) (hfunc : colon ∉ func.load 0 funcLen) :
    ∃ entry, lumbreWhitelistMatch fuel builtinWhitelist className classLen (some func) funcLen =
        some entry ∧
      (entry ≠ none ↔ ∃ r ∈ lumbreWlStaticTable,
        r.Named (className.read classLen) (func.load 0 funcLen)) ∧
      ∀ r ∈ lumbreWlStaticTable, r.Named (className.read classLen) (func.load 0 funcLen) →
        entry = some (rowEntry r) := by
  have hmatch := built_builtinWhitelist.match_eq_find (by decide) lumbreWlStaticTable_key_ne_nil hfuel
    className classLen (some func) funcLen
  rw [lumbreWlBuildKey_eq_nameKey] at hmatch
  have hnamed : ∀ r ∈ lumbreWlStaticTable,
      r.key = nameKey (className.read classLen) (func.load 0 funcLen) ↔
        r.Named (className.read classLen) (func.load 0 funcLen) := by
    intro r hr
    obtain ⟨hrcls, hrfunc⟩ := lumbreWlStaticTable_colon r hr
    have hne := lumbreWlStaticTable_key_ne_nil r hr
    rw [lumbreWlStaticTable_key r hr] at hne ⊢
    exact nameKey_eq_iff hrcls hcls hrfunc hfunc hne
  have hfound : ∀ r ∈ lumbreWlStaticTable,
      r.Named (className.read classLen) (func.load 0 funcLen) →
        (lumbreWlStaticTable.find? fun r =>
          r.key = nameKey (className.read classLen) (func.load 0 funcLen)) = some r := by
    intro r hr hname
    exact find_key_eq hr ((hnamed r hr).mpr hname)
  refine ⟨_, hmatch, ?_, ?_⟩
  · constructor
    · intro hne
      cases hfind : lumbreWlStaticTable.find? fun r =>
          r.key = nameKey (className.read classLen) (func.load 0 funcLen) with
      | none =>
          rw [hfind] at hne
          exact absurd rfl hne
      | some r =>
          have hr := List.mem_of_find?_eq_some hfind
          have hkey := List.find?_some hfind
          exact ⟨r, hr, (hnamed r hr).mp (of_decide_eq_true hkey)⟩
    · rintro ⟨r, hr, hname⟩
      rw [hfound r hr hname]
      exact Option.some_ne_none (rowEntry r)
  · intro r hr hname
    rw [hfound r hr hname]
    rfl

/-- A method in mixed case finds its row. -/
theorem lumbreWhitelistMatch_iff_named_query :
    ∃ entry, lumbreWhitelistMatch lumbreWhitelistSize builtinWhitelist (literal "pDo") 3
        (some (Mem.ofList (ascii "QuErY"))) 5 = some entry ∧
      entry = some (rowEntry ⟨literal "PDO", 3, literal "query", 5, lumbreSpanDb⟩) := by
  obtain ⟨entry, hmatch, _, hrow⟩ := lumbreWhitelistMatch_iff_named le_rfl (literal "pDo") 3
    (Mem.ofList (ascii "QuErY")) 5 (by decide) (by decide)
  refine ⟨entry, hmatch, hrow _ ?_ (by decide)⟩
  simp [lumbreWlStaticTable]

end LumbreExt
