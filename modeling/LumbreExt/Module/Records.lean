import LumbreExt.Module.Database

/-!
# What the daemon reads of a call

A traced call from its names and arguments to the bytes in the ring, as one statement about values:
no pointer, no length and no cast is left in it.

* `HookCall.record` — what the trace is to say about a call of a given type, in the call's own
  strings; `dbFamily` is the family of a database class.
* `Says` — a pointer and a length that together are a byte string. Every string a hook stores is one
  (`says_strPtr`, `says_optPtr`), if it is short enough for a `uint32_t` with a header.
* `LumbreSpan.Tells`, `tells_payload` — what the payload of a span says, for every kind of call.
* `Worker.call_recorded` — in every run of the shipped module a traced call, whatever happens inside
  it, is read back from the payload with its ids, its times and its `record`.
-/

namespace LumbreExt

open Lib Lib.MsgPack

/-! ## The record of a call -/

/-- The first argument, if it is a string. -/
def firstString : List Zval → Option (List UInt8)
  | .string s :: _ => some s
  | _ => none

/-- The family of the database, by the class name. -/
def dbFamily : Option (List UInt8) → List UInt8
  | none => ascii "unknown"
  | some name =>
      let folded := name.map lower
      if folded = ascii "pdo" then ascii "pdo"
      else if ascii "mysqli" <+: folded then ascii "mysql"
      else if ascii "pdo" <+: folded ∧ 12 ≤ name.length ∧ name[3]? = some 0x53 then ascii "pdo"
      else ascii "pgsql"

/-- What is said about a userland call: its class, its name, its file and its line. -/
def ZendFunction.record (func : ZendFunction) (lineno : Option UInt32) :
    List (List UInt8 × Scalar) :=
  [(ascii "cls", .str (func.scopeName.getD [])),
    (ascii "fn", .str (func.functionName.getD [])),
    (ascii "f", .str (if func.userFunction then func.filename.getD [] else [])),
    (ascii "l", .int (if func.userFunction then (lineno.getD 0).toNat else 0))]

/-- What is said about a call that starts a span of the given type, with queries cut to `limit`. -/
def HookCall.record (limit : ℕ) (type : LumbreSpanTypeT) : HookCall → List (List UInt8 × Scalar)
  | .ex func lineno => (func.getD ⟨none, none, false, none⟩).record lineno
  | .internal func args =>
      let arg := firstString args
      if type = lumbreSpanDb then
        [(ascii "q", .str ((arg.getD []).take limit)),
          (ascii "dbt", .str (if arg.isSome then dbFamily func.scopeName else [])),
          (ascii "r", .int 0)]
      else if type = lumbreSpanRedis ∨ type = lumbreSpanMemcached then
        [(ascii "cmd", .str (func.functionName.getD [])), (ascii "k", .str (arg.getD []))]
      else if type = lumbreSpanFileIo then [(ascii "url", .str (arg.getD []))]
      -- no URL, no method and no status are taken from these
      else if type = lumbreSpanHttpOut then
        [(ascii "url", .str []), (ascii "mth", .str []), (ascii "st", .int 0)]
      else if type = lumbreSpanSocket then [(ascii "url", .str [])]
      else []

/-- A length that leaves room for the header of a string. -/
def ShortLength (n : ℕ) : Prop := n < 2 ^ 32 - 5

instance (n : ℕ) : Decidable (ShortLength n) := inferInstanceAs (Decidable (_ < _))

/-- The strings of a function are short. -/
structure ZendFunction.Short (func : ZendFunction) : Prop where
  functionName : ShortLength (func.functionName.getD []).length
  scopeName : ShortLength (func.scopeName.getD []).length
  filename : ShortLength (func.filename.getD []).length

/-- The strings a hook reads of a call are short. -/
def HookCall.Short : HookCall → Prop
  | .internal func args => func.Short ∧ ShortLength ((firstString args).getD []).length
  | .ex func _ => ∀ f, func = some f → f.Short

/-! ## Pointers and lengths -/

/-- The pointer and the length are this byte string. -/
structure Says (ptr : BytePtr) (len : UInt32) (bs : List UInt8) : Prop where
  valid : ptr.Valid len
  short : len.toNat < 2 ^ 32 - 5
  bytes : ptr.bytes len = bs

lemma says_null : Says none 0 [] := ⟨fun h => absurd h (by decide), by decide, rfl⟩

lemma toNat_strLen32 {s : List UInt8} (h : ShortLength s.length) :
    (strLen32 s).toNat = s.length := by
  unfold ShortLength at h
  rw [strLen32, UInt32.toNat_ofNat']
  omega

lemma says_strPtr {s : List UInt8} (h : ShortLength s.length) : Says (strPtr s) (strLen32 s) s := by
  have hlen := toNat_strLen32 h
  exact ⟨fun _ => rfl, by rw [hlen]; exact h, bytes_ofList hlen⟩

/-- A prefix of a string. -/
lemma says_take {s : List UInt8} (h : ShortLength s.length) {n : UInt32}
    (hn : n.toNat ≤ s.length) : Says (strPtr s) n (s.take n.toNat) :=
  ⟨fun _ => rfl, lt_of_le_of_lt hn h, Mem.load_ofList_of_le hn⟩

lemma says_optPtr {s : Option (List UInt8)} (h : ShortLength (s.getD []).length) :
    Says (optPtr s) (UInt32.ofNat (optLen s)) (s.getD []) := by
  cases s with
  | none => exact says_null
  | some bs => exact says_strPtr h

lemma says_literal {s : String} {len : UInt32} (hlen : len.toNat = (ascii s).length)
    (h : len.toNat < 2 ^ 32 - 5) : Says (literal s) len (ascii s) :=
  ⟨fun _ => rfl, h, bytes_ofList hlen⟩

/-- The argument, or the empty string in its place. -/
lemma says_orEmpty {ptr : BytePtr} {len : UInt32} {bs : List UInt8} (h : Says ptr len bs) :
    Says (if ptr ≠ none then ptr else literal "") len bs := by
  by_cases hnull : ptr = none
  · rw [if_neg (fun hne => hne hnull)]
    have hzero : len.toNat = 0 := by
      by_contra hpos
      have hsome := h.valid (Nat.pos_of_ne_zero hpos)
      rw [hnull] at hsome
      exact Bool.false_ne_true hsome
    have hempty : bs = [] := by
      rw [← h.bytes, BytePtr.bytes, hzero, hnull]
      rfl
    rw [hempty]
    exact says_literal hzero h.short
  · rw [if_pos hnull]
    exact h

/-! ## The family of a database -/

/-- The letters are those of a folded name. -/
lemma isLetter_iff {name : List UInt8} {i : ℕ} {l : UInt8} (hl : 0x61 ≤ l ∧ l ≤ 0x7A) :
    isLetter name i l ↔ (name.map lower)[i]? = some l := by
  have hfold : lower l = l ∧ lower (l - 0x20) = l := by
    revert hl
    refine forall_byte (P := fun l => 0x61 ≤ l ∧ l ≤ 0x7A → lower l = l ∧ lower (l - 0x20) = l) ?_ l
    decide +kernel
  rw [isLetter, List.getElem?_map, Option.map_eq_some_iff]
  constructor
  · rintro (h | h)
    · exact ⟨l, h, hfold.1⟩
    · exact ⟨l - 0x20, h, hfold.2⟩
  · rintro ⟨c, hc, hlower⟩
    rcases eq_or_eq_of_lower_eq hlower with rfl | rfl
    · exact Or.inl hc
    · exact Or.inr hc

lemma startsPdo_iff (name : List UInt8) : startsPdo name ↔ ascii "pdo" <+: name.map lower := by
  rw [startsPdo, isLetter_iff (by decide), isLetter_iff (by decide), isLetter_iff (by decide),
    List.prefix_iff_getElem?]
  constructor
  · rintro ⟨h₀, h₁, h₂⟩ i hi
    match i, hi with
    | 0, _ => exact h₀
    | 1, _ => exact h₁
    | 2, _ => exact h₂
    | n + 3, hi => exact absurd hi (show ¬ n + 3 < 3 by omega)
  · intro h
    exact ⟨h 0 (by decide), h 1 (by decide), h 2 (by decide)⟩

lemma startsMysqli_iff (name : List UInt8) :
    startsMysqli name ↔ ascii "mysqli" <+: name.map lower := by
  rw [startsMysqli, isLetter_iff (by decide), isLetter_iff (by decide), isLetter_iff (by decide),
    isLetter_iff (by decide), isLetter_iff (by decide), isLetter_iff (by decide),
    List.prefix_iff_getElem?]
  constructor
  · rintro ⟨h₀, h₁, h₂, h₃, h₄, h₅⟩ i hi
    match i, hi with
    | 0, _ => exact h₀
    | 1, _ => exact h₁
    | 2, _ => exact h₂
    | 3, _ => exact h₃
    | 4, _ => exact h₄
    | 5, _ => exact h₅
    | n + 6, hi => exact absurd hi (show ¬ n + 6 < 6 by omega)
  · intro h
    exact ⟨h 0 (by decide), h 1 (by decide), h 2 (by decide), h 3 (by decide), h 4 (by decide),
      h 5 (by decide)⟩

/-- The inference compares letter by letter what `dbFamily` folds. -/
lemma says_dbType (className : Option (List UInt8)) :
    Says (lumbreInferDbType className).1 (lumbreInferDbType className).2 (dbFamily className) := by
  cases className with
  | none => exact says_literal rfl (by decide)
  | some name =>
      have hthree : (name.length = 3 ∧ startsPdo name) ↔ name.map lower = ascii "pdo" := by
        rw [startsPdo_iff]
        constructor
        · rintro ⟨hlen, hstart⟩
          exact (hstart.eq_of_length (by rw [List.length_map, hlen]; rfl)).symm
        · intro heq
          refine ⟨?_, heq ▸ List.prefix_refl _⟩
          rw [← List.length_map (f := lower), heq]
          rfl
      have hmysqli : (6 ≤ name.length ∧ startsMysqli name) ↔
          ascii "mysqli" <+: name.map lower := by
        rw [startsMysqli_iff]
        refine ⟨fun h => h.2, fun h => ⟨?_, h⟩⟩
        have hlen := h.length_le
        rw [List.length_map] at hlen
        exact hlen
      have hstatement : (12 ≤ name.length ∧ startsPdo name ∧ name[3]? = some 0x53) ↔
          (ascii "pdo" <+: name.map lower ∧ 12 ≤ name.length ∧ name[3]? = some 0x53) := by
        rw [startsPdo_iff]
        exact ⟨fun h => ⟨h.2.1, h.1, h.2.2⟩, fun h => ⟨h.2.1, h.1, h.2.2⟩⟩
      unfold lumbreInferDbType dbFamily
      simp only [hthree, hmysqli, hstatement]
      split_ifs
      · exact says_literal rfl (by decide)
      · exact says_literal rfl (by decide)
      · exact says_literal rfl (by decide)
      · exact says_literal rfl (by decide)

/-! ## The payload of a hook -/

/-- What is encoded of the span, whenever it is finished, says `fields` behind the common ones. -/
structure LumbreSpan.Tells (span : LumbreSpan) (limit : UInt32)
    (fields : List (List UInt8 × Scalar)) : Prop where
  strings : ∀ p ∈ span.strings, ∃ bs, Says p.1 p.2 bs
  typeFields : ∀ clockNs, (span.recorded limit clockNs).typeFields = fields

lemma LumbreSpan.Tells.wellFormed {span : LumbreSpan} {limit : UInt32}
    {fields : List (List UInt8 × Scalar)} (h : span.Tells limit fields) : span.WellFormed := by
  intro p hp
  obtain ⟨bs, hsaid⟩ := h.strings p hp
  exact ⟨hsaid.valid, hsaid.short⟩

/-- The types of the shipped whitelist. -/
def hookTypes : List LumbreSpanTypeT :=
  [lumbreSpanHttpOut, lumbreSpanDb, lumbreSpanRedis, lumbreSpanMemcached, lumbreSpanFileIo,
    lumbreSpanSocket, lumbreSpanCache]

section payload

variable {limit : UInt32} {type : LumbreSpanTypeT} {ctx : LumbreContext} {clockNs : UInt64}

/-- The strings of a span that has just been started, with any three of them set. -/
lemma strings_start : ∀ p ∈ (lumbreSpanStart type ctx clockNs).1.strings, ∃ bs, Says p.1 p.2 bs := by
  intro p hp
  have hnull : p = (none, 0) := by
    simpa [lumbreSpanStart, LumbreSpan.strings, zeroSpan] using hp
  rw [hnull]
  exact ⟨[], says_null⟩

/-- A setter replaces some strings and leaves the others. -/
lemma strings_setDb {span : LumbreSpan} {query db : BytePtr} {queryLen dbLen rows : UInt32} :
    ∀ p ∈ (lumbreSpanSetDb span query queryLen db dbLen rows limit).strings,
      p ∈ span.strings ∨
        p = (query, (lumbreSpanSetDb span query queryLen db dbLen rows limit).queryLen) ∨
        p = (db, dbLen) := by
  intro p hp
  simp only [LumbreSpan.strings, lumbreSpanSetDb, List.mem_cons, List.not_mem_nil, or_false] at hp ⊢
  grind

lemma strings_setCache {span : LumbreSpan} {cmd key : BytePtr} {cmdLen keyLen : UInt32} :
    ∀ p ∈ (lumbreSpanSetCache span cmd cmdLen key keyLen).strings,
      p ∈ span.strings ∨ p = (cmd, cmdLen) ∨ p = (key, keyLen) := by
  intro p hp
  simp only [LumbreSpan.strings, lumbreSpanSetCache, List.mem_cons, List.not_mem_nil,
    or_false] at hp ⊢
  grind

lemma strings_setFileIo {span : LumbreSpan} {path : BytePtr} {pathLen : UInt32} :
    ∀ p ∈ (lumbreSpanSetFileIo span path pathLen).strings,
      p ∈ span.strings ∨ p = (path, pathLen) := by
  intro p hp
  simp only [LumbreSpan.strings, lumbreSpanSetFileIo, List.mem_cons, List.not_mem_nil,
    or_false] at hp ⊢
  grind

lemma strings_setFunc {span : LumbreSpan} {cls name file : BytePtr}
    {clsLen nameLen fileLen line : UInt32} :
    ∀ p ∈ (lumbreSpanSetFunc span cls clsLen name nameLen file fileLen line).strings,
      p ∈ span.strings ∨ p = (cls, clsLen) ∨ p = (name, nameLen) ∨ p = (file, fileLen) := by
  intro p hp
  simp only [LumbreSpan.strings, lumbreSpanSetFunc, List.mem_cons, List.not_mem_nil,
    or_false] at hp ⊢
  grind

lemma strings_setHttpIn {span : LumbreSpan} {uri method : BytePtr} {uriLen methodLen : UInt32} :
    ∀ p ∈ (lumbreSpanSetHttpIn span uri uriLen method methodLen).strings,
      p ∈ span.strings ∨ p = (uri, uriLen) ∨ p = (method, methodLen) := by
  intro p hp
  simp only [LumbreSpan.strings, lumbreSpanSetHttpIn, List.mem_cons, List.not_mem_nil,
    or_false] at hp ⊢
  grind

/-- The first argument as the hooks extract it. -/
lemma lumbreExtractFirstStrArg_cases (args : List Zval) :
    (∃ s, firstString args = some s ∧
        lumbreExtractFirstStrArg args = (strPtr s, strLen32 s)) ∨
      (firstString args = none ∧ lumbreExtractFirstStrArg args = (none, 0)) := by
  cases args with
  | nil => exact Or.inr ⟨rfl, rfl⟩
  | cons arg rest =>
      cases arg with
      | string s => exact Or.inl ⟨s, rfl, rfl⟩
      | other => exact Or.inr ⟨rfl, rfl⟩

/-- A database call with a statement. -/
lemma tells_setDb {s : List UInt8} (h : ShortLength s.length) (className : Option (List UInt8)) :
    (lumbreSpanSetDb (lumbreSpanStart lumbreSpanDb ctx clockNs).1 (strPtr s) (strLen32 s)
        (lumbreInferDbType className).1 (lumbreInferDbType className).2 0 limit).Tells limit
      [(ascii "q", .str (s.take limit.toNat)), (ascii "dbt", .str (dbFamily className)),
        (ascii "r", .int 0)] where
  strings := by
    intro p hp
    rcases strings_setDb p hp with hp | rfl | rfl
    · exact strings_start p hp
    · have hlen := LumbreSpan.toNat_setDb_queryLen (lumbreSpanStart lumbreSpanDb ctx clockNs).1
        (strPtr s) (lumbreInferDbType className).1 (strLen32 s) (lumbreInferDbType className).2 0
        limit
      rw [toNat_strLen32 h] at hlen
      exact ⟨_, says_take h (by rw [hlen]; exact Nat.min_le_left _ _)⟩
    · exact ⟨_, says_dbType className⟩
  typeFields := by
    intro endNs
    have hquery := recorded_sql (lumbreSpanStart lumbreSpanDb ctx clockNs).1 s
      (lumbreInferDbType className).1 (lumbreInferDbType className).2 0 limit endNs
    have hlen : s.length % 2 ^ 32 = s.length := by
      unfold ShortLength at h
      omega
    rw [hlen, List.take_eq_take_iff.mpr (show min (min s.length limit.toNat) s.length =
      min limit.toNat s.length by omega)] at hquery
    rw [← hquery, ← (says_dbType className).bytes]
    rfl

/-- A command of a cache, and its key. -/
lemma tells_setCache (htype : type = lumbreSpanRedis ∨ type = lumbreSpanMemcached)
    {cmd key : BytePtr} {cmdLen keyLen : UInt32} {cmdBytes keyBytes : List UInt8}
    (hcmd : Says cmd cmdLen cmdBytes) (hkey : Says key keyLen keyBytes) :
    (lumbreSpanSetCache (lumbreSpanStart type ctx clockNs).1 cmd cmdLen key keyLen).Tells limit
      [(ascii "cmd", .str cmdBytes), (ascii "k", .str keyBytes)] where
  strings := by
    intro p hp
    rcases strings_setCache p hp with hp | rfl | rfl
    · exact strings_start p hp
    · exact ⟨_, hcmd⟩
    · exact ⟨_, hkey⟩
  typeFields := by
    intro endNs
    rw [← hcmd.bytes, ← hkey.bytes]
    rcases htype with rfl | rfl
    · rfl
    · rfl

/-- The other cache commands set the same payload, of which nothing is encoded. -/
lemma tells_setCache_other {cmd key : BytePtr} {cmdLen keyLen : UInt32}
    {cmdBytes keyBytes : List UInt8} (hcmd : Says cmd cmdLen cmdBytes)
    (hkey : Says key keyLen keyBytes) :
    (lumbreSpanSetCache (lumbreSpanStart lumbreSpanCache ctx clockNs).1 cmd cmdLen key keyLen).Tells
      limit [] where
  strings := by
    intro p hp
    rcases strings_setCache p hp with hp | rfl | rfl
    · exact strings_start p hp
    · exact ⟨_, hcmd⟩
    · exact ⟨_, hkey⟩
  typeFields := fun _ => rfl

/-- A file access. -/
lemma tells_setFileIo {path : BytePtr} {pathLen : UInt32} {pathBytes : List UInt8}
    (hpath : Says path pathLen pathBytes) :
    (lumbreSpanSetFileIo (lumbreSpanStart lumbreSpanFileIo ctx clockNs).1 path pathLen).Tells limit
      [(ascii "url", .str pathBytes)] where
  strings := by
    intro p hp
    rcases strings_setFileIo p hp with hp | rfl
    · exact strings_start p hp
    · exact ⟨_, hpath⟩
  typeFields := by
    intro endNs
    rw [← hpath.bytes]
    rfl

/-- A userland call. -/
lemma tells_setFunc {cls name file : BytePtr} {clsLen nameLen fileLen line : UInt32}
    {clsBytes nameBytes fileBytes : List UInt8} (hcls : Says cls clsLen clsBytes)
    (hname : Says name nameLen nameBytes) (hfile : Says file fileLen fileBytes) :
    (lumbreSpanSetFunc (lumbreSpanStart lumbreSpanFunc ctx clockNs).1 cls clsLen name nameLen file
        fileLen line).Tells limit
      [(ascii "cls", .str clsBytes), (ascii "fn", .str nameBytes), (ascii "f", .str fileBytes),
        (ascii "l", .int line.toNat)] where
  strings := by
    intro p hp
    rcases strings_setFunc p hp with hp | rfl | rfl | rfl
    · exact strings_start p hp
    · exact ⟨_, hcls⟩
    · exact ⟨_, hname⟩
    · exact ⟨_, hfile⟩
  typeFields := by
    intro endNs
    have hline : (line.toUInt64.toNat) = line.toNat := UInt32.toNat_toUInt64 line
    rw [← hcls.bytes, ← hname.bytes, ← hfile.bytes]
    rfl

/-- A span without a payload. -/
lemma tells_start {fields : List (List UInt8 × Scalar)}
    (hfields : ∀ endNs, ((lumbreSpanStart type ctx clockNs).1.recorded limit endNs).typeFields =
      fields) : (lumbreSpanStart type ctx clockNs).1.Tells limit fields :=
  ⟨strings_start, hfields⟩

/-- **The payload of an internal call is its record**, for every type of the shipped whitelist. -/
lemma tells_executeInternalPayload (g : LumbreGlobals) (htype : type ∈ hookTypes)
    {func : ZendFunction} {args : List Zval} (hshort : (HookCall.internal func args).Short) :
    (g.executeInternalPayload func args type (lumbreSpanStart type ctx clockNs).1).Tells
      g.queryLimit ((HookCall.internal func args).record g.queryLimit.toNat type) := by
  obtain ⟨hfunc, harg⟩ := hshort
  have hname := says_optPtr hfunc.functionName
  simp only [hookTypes, List.mem_cons, List.not_mem_nil, or_false] at htype
  rcases lumbreExtractFirstStrArg_cases args with ⟨s, hfirst, hextract⟩ | ⟨hfirst, hextract⟩
  · rw [hfirst] at harg
    have hsaid := says_strPtr harg
    unfold LumbreGlobals.executeInternalPayload HookCall.record
    dsimp only
    rw [hextract, hfirst]
    rcases htype with rfl | rfl | rfl | rfl | rfl | rfl | rfl
    · exact tells_start fun _ => rfl
    · exact tells_setDb harg func.scopeName
    · exact tells_setCache (Or.inl rfl) hname hsaid
    · exact tells_setCache (Or.inr rfl) hname hsaid
    · exact tells_setFileIo hsaid
    · exact tells_start fun _ => rfl
    · exact tells_setCache_other hname hsaid
  · have hempty : Says (literal "") 0 [] := says_literal rfl (by decide)
    unfold LumbreGlobals.executeInternalPayload HookCall.record
    dsimp only
    rw [hextract, hfirst]
    rcases htype with rfl | rfl | rfl | rfl | rfl | rfl | rfl
    · exact tells_start fun _ => rfl
    · rw [if_pos rfl, Option.getD_none, List.take_nil]
      exact tells_start fun _ => rfl
    · exact tells_setCache (Or.inl rfl) hname hempty
    · exact tells_setCache (Or.inr rfl) hname hempty
    · exact tells_start fun _ => rfl
    · exact tells_start fun _ => rfl
    · exact tells_setCache_other hname hempty

/-- **The payload of a userland call is its record.** -/
lemma tells_executeExPayload {func : ZendFunction} (hfunc : func.Short) (lineno : Option UInt32) :
    (LumbreGlobals.executeExPayload func lineno (lumbreSpanStart lumbreSpanFunc ctx clockNs).1).Tells limit
      (func.record lineno) := by
  have hcls := says_optPtr hfunc.scopeName
  have hname := says_optPtr hfunc.functionName
  have hfile := says_optPtr hfunc.filename
  unfold LumbreGlobals.executeExPayload ZendFunction.record LumbreGlobals.executeExPosition
  dsimp only [lumbreExtractNames]
  by_cases huser : func.userFunction = true
  · simp only [if_pos huser]
    exact tells_setFunc hcls hname (says_orEmpty hfile)
  · simp only [if_neg huser]
    exact tells_setFunc hcls hname (says_literal rfl (by decide))

end payload

/-! ## The calls of a worker -/

/-- The shipped whitelist lists these types. -/
lemma lumbreWlStaticTable_hookTypes : ∀ src ∈ lumbreWlStaticTable, src.spanType ∈ hookTypes := by
  decide

/-- The type of an internal call is one of the whitelist. -/
lemma executeInternalType_mem {g : LumbreGlobals} (hwhitelist : g.whitelist = builtinWhitelist)
    {func : ZendFunction} {type : LumbreSpanTypeT} (h : g.executeInternalType func = some type) :
    type ∈ hookTypes := by
  unfold LumbreGlobals.executeInternalType at h
  dsimp only at h
  split_ifs at h
  rw [hwhitelist, built_builtinWhitelist.match_eq_find (by decide)
    lumbreWlStaticTable_key_ne_nil le_rfl] at h
  obtain ⟨entry, hentry, rfl⟩ := Option.map_eq_some_iff.mp h
  obtain ⟨src, hsrc, rfl⟩ := Option.map_eq_some_iff.mp hentry
  exact lumbreWlStaticTable_hookTypes src (List.mem_of_find?_eq_some hsrc)

/-- **The payload of every traced call is its record.** -/
theorem tells_payload {g : LumbreGlobals} (hwhitelist : g.whitelist = builtinWhitelist)
    {call : HookCall} (hshort : call.Short) {type : LumbreSpanTypeT}
    (htype : g.spanType call = some type) (ctx : LumbreContext) (clockNs : UInt64) :
    (g.payload type (lumbreSpanStart type ctx clockNs).1 call).Tells g.queryLimit
      (call.record g.queryLimit.toNat type) := by
  cases call with
  | internal func args =>
      exact tells_executeInternalPayload g (executeInternalType_mem hwhitelist htype) hshort
  | ex func lineno =>
      simp only [LumbreGlobals.spanType, LumbreGlobals.executeExType] at htype
      split_ifs at htype with hguard hmode hnamed
      obtain rfl := Option.some.inj htype
      cases func with
      | none => exact absurd rfl hnamed
      | some func => exact tells_executeExPayload (hshort func rfl) lineno

/-- An entry of the map a daemon decodes. -/
def entry (field : List UInt8 × Scalar) : Value × Value := (.scalar (.str field.1), .scalar field.2)

/-- What the trace says about a call of a worker in `p` that is left with the clock reading `endNs`:
what identifies it, its times, and its record. -/
def Process.callFields (clock : Clock) (p : Process) (call : HookCall) (type : LumbreSpanTypeT)
    (endNs : UInt64) : List (List UInt8 × Scalar) :=
  [(ascii "t", .int type.toNat),
    (ascii "tid", .bin p.g.ctx.traceId.toList),
    (ascii "sid", .int p.g.ctx.spanCounter.toNat),
    (ascii "pid", .int p.g.ctx.currentParentId.toNat),
    (ascii "s", .int (clock p.ticks).toNat),
    (ascii "d", .int (endNs - clock p.ticks).toNat)] ++
  call.record p.g.queryLimit.toNat type

/-- A traced call starts a span with its payload. -/
lemma Process.enter_eq (clock : Clock) {p : Process} {call : HookCall} {type : LumbreSpanTypeT}
    (htype : p.g.spanType call = some type) :
    p.enter clock call =
      (.traced (p.g.payload type (lumbreSpanStart type p.g.ctx (clock p.ticks)).1 call),
        p.afterStart (p.g.payload type (lumbreSpanStart type p.g.ctx (clock p.ticks)).1 call)) := by
  unfold enter
  rw [htype]
  simp only [spanStart, afterStart, lumbreSpanStart_ctx]

/-- What is handed over reads back as the recorded span. -/
lemma decodeAll_of_handed {span : LumbreSpan} {rb : LumbreRingbuf} {mpBuf : LumbreMsgpackBuf}
    {ctx : LumbreContext} {minDurationNs clockNs : UInt64} {maxQueryLen : UInt32}
    {payload : List UInt8} (hspan : span.WellFormed) (hcap : mpBuf.capacity = lumbreMsgpackBufSize)
    (h : (lumbreSpanFinish span rb mpBuf ctx minDurationNs maxQueryLen clockNs).handed =
      some payload) :
    decodeAll payload = some (.map ((span.recorded maxQueryLen clockNs).fields.map entry)) := by
  obtain ⟨hdecode, _⟩ := decodeAll_items (hspan.recorded maxQueryLen clockNs)
  rw [← handed_eq hspan (by rw [hcap]; decide) h] at hdecode
  exact hdecode

/-- What is handed over of a span of the worker says what its fields are. -/
lemma decodeAll_spanFinish {clock : Clock} {p p' : Process} {span : LumbreSpan} {limit : UInt32}
    {fields : List (List UInt8 × Scalar)} (htells : span.Tells limit fields)
    (hlimit : p.g.queryLimit = limit) (hcap : p.g.mpBuf.capacity = lumbreMsgpackBufSize)
    {minDurationNs readPos : UInt64} {r : FinishResult}
    (h : p.spanFinish clock span minDurationNs readPos = some (r, p')) {payload : List UInt8}
    (hpayload : r.handed = some payload) :
    decodeAll payload = some (.map
      (((span.recorded limit (clock p.ticks)).commonFields ++ fields).map entry)) := by
  unfold Process.spanFinish at h
  split at h
  · cases h
    have hdecode := decodeAll_of_handed htells.wellFormed hcap hpayload
    rw [← htells.typeFields (clock p.ticks), ← hlimit]
    exact hdecode
  · cases h

/-- The limit of the queries is not a setting a script may change. -/
lemma Replay.queryLimit {clock : Clock} {P : IniChange → Prop} {p p' : Process}
    {f : Forest SpanRecord} (h : Replay clock P p f p') : p'.g.queryLimit = p.g.queryLimit := by
  induction h with
  | nil p => rfl
  | iniSet change hchange hrest ih => cases change <;> exact ih
  | append hinner hrest ihinner ihrest => exact ihrest.trans ihinner
  | node htype hspan hinner hfinish hrest ihinner ihrest => exact ihrest.trans ihinner

namespace Worker

/-- **The daemon reads what was called.** In every run of the shipped module, a traced call with short
strings is left again after whatever well-nested body runs inside it, and if its span is handed to
the ring, the payload decodes to one map: its ids, its times and the record of the call. -/
theorem call_recorded {clock : Clock} {w : Worker}
    (hreach : (machine clock lumbreWlStaticTable).Reachable w) {call : HookCall}
    (hshort : call.Short) {type : LumbreSpanTypeT} (htype : w.proc.g.spanType call = some type)
    (inner : Body) (readPos : UInt64) :
    ∃ w' r, (machine clock lumbreWlStaticTable).run w
        (.enter call :: (inner.events ++ [.leave readPos])) = some w' ∧
      w'.stack = w.stack ∧ w'.proc.finished.getLast? = some r ∧
      ∀ payload, r.handed = some payload →
        decodeAll payload = some (.map
          ((w.proc.callFields clock call type (clock (w'.proc.ticks - 1))).map entry)) := by
  have hwhitelist := whitelist_of_reachable hreach
  obtain ⟨hopened, hrunning, _⟩ :=
    (safe_of_reachable hreach).active (LumbreGlobals.active_of_spanType htype)
  have htells := tells_payload hwhitelist hshort htype w.proc.g.ctx (clock w.proc.ticks)
  have henter := Process.enter_eq clock htype
  generalize hspan : w.proc.g.payload type
    (lumbreSpanStart type w.proc.g.ctx (clock w.proc.ticks)).1 call = span at htells henter
  have hidentity : span.identity =
      w.proc.g.ctx.nextIdentity type (clock w.proc.ticks) := by
    rw [← hspan, w.proc.g.payload_identity]
    rfl
  obtain ⟨p₂, f, heval, hopened₂, hreplay⟩ :=
    exists_replay clock inner.allChanges_true (hopened.afterStart span)
  obtain ⟨r, hr, hfinish⟩ :=
    Process.spanFinish_eq clock hopened₂.ready span p₂.g.minDurationNs.toUInt64 readPos
  have hinner : (machine clock lumbreWlStaticTable).run
      (w.push (.traced span) (w.proc.afterStart span)) inner.events =
        some { w.push (.traced span) (w.proc.afterStart span) with proc := p₂ } :=
    run_events hrunning heval
  refine ⟨{ w with proc := p₂.afterFinish r }, r, ?_, rfl, List.getLast?_concat, ?_⟩
  · have hstep : (machine clock lumbreWlStaticTable).step w (.enter call) =
        some (w.push (.traced span) (w.proc.afterStart span)) := by
      unfold machine Worker.step
      simp [hrunning, henter]
    have hleave : (machine clock lumbreWlStaticTable).step
        { w.push (.traced span) (w.proc.afterStart span) with proc := p₂ } (.leave readPos) =
          some { w with proc := p₂.afterFinish r } := by
      unfold machine Worker.step push
      dsimp only
      rw [Process.leave, hfinish]
      rfl
    rw [Machine.run_cons, hstep, Option.bind_some, Machine.run_append, hinner, Option.bind_some,
      Machine.run_cons, hleave]
    rfl
  · intro payload hpayload
    have hlimit : p₂.g.queryLimit = w.proc.g.queryLimit := hreplay.queryLimit
    rw [decodeAll_spanFinish htells hlimit hopened₂.capacity hfinish hpayload]
    have htype' : span.type = type := congrArg LumbreSpan.Identity.type hidentity
    have htrace : span.traceId = w.proc.g.ctx.traceId :=
      congrArg LumbreSpan.Identity.traceId hidentity
    have hid : span.spanId = w.proc.g.ctx.spanCounter :=
      congrArg LumbreSpan.Identity.spanId hidentity
    have hparent : span.parentId = w.proc.g.ctx.currentParentId :=
      congrArg LumbreSpan.Identity.parentId hidentity
    have hstart : span.startNs = clock w.proc.ticks :=
      congrArg LumbreSpan.Identity.startNs hidentity
    unfold Process.callFields
    rw [← htype', ← htrace, ← hid, ← hparent, ← hstart]
    rfl

/-- `$redis->get("user:1")`, in any case. -/
def redisGet : HookCall := .internal ⟨some (ascii "GET"), some (ascii "redis"), false, none⟩
  [.string (ascii "user:1")]

/-- A command of a cache in the first request of the worker, with a file opened inside it. -/
theorem call_recorded_redis_get :
    ∃ w w' r payload,
      (machine (fun _ => 0) lumbreWlStaticTable).run shipped [.rinit plainRequest] = some w ∧
      (machine (fun _ => 0) lumbreWlStaticTable).run w (.enter redisGet ::
        ((Body.call (functionCall "fopen") .done 0 .done).events ++ [.leave 0])) = some w' ∧
      w'.proc.finished.getLast? = some r ∧ r.handed = some payload ∧
      decodeAll payload = some (.map (([
          (ascii "t", .int 4), (ascii "tid", .bin (List.replicate 16 0)), (ascii "sid", .int 2),
          (ascii "pid", .int 1), (ascii "s", .int 0), (ascii "d", .int 0),
          (ascii "cmd", .str (ascii "GET")), (ascii "k", .str (ascii "user:1"))] :
        List (List UInt8 × Scalar)).map entry)) := by
  let clock : Clock := fun _ => 0
  have hfirst : ((machine clock lumbreWlStaticTable).run shipped [.rinit plainRequest]).map
      (fun w => (w.proc.g.spanType redisGet, w.proc.g.ctx.traceId.toList,
        w.proc.g.ctx.spanCounter, w.proc.g.ctx.currentParentId)) =
        some (some 4, List.replicate 16 0, 2, 1) := by decide +kernel
  obtain ⟨w, hrun, hw⟩ := Option.map_eq_some_iff.mp hfirst
  simp only [Prod.mk.injEq] at hw
  obtain ⟨htype, htrace, hid, hparent⟩ := hw
  have hreach : (machine clock lumbreWlStaticTable).Reachable w :=
    (Machine.Reachable.start start_shipped).run hrun
  have hshort : redisGet.Short := ⟨⟨by decide, by decide, by decide⟩, by decide⟩
  obtain ⟨w', r, hrun', _, hlast, hdecode⟩ := call_recorded hreach hshort htype
    (Body.call (functionCall "fopen") .done 0 .done) 0
  have hhanded : ((machine clock lumbreWlStaticTable).run shipped (.rinit plainRequest ::
      .enter redisGet :: ((Body.call (functionCall "fopen") .done 0 .done).events ++
        [.leave 0]))).map (fun w => (w.proc.finished.getLast?.map fun r => r.handed.isSome)) =
        some (some true) := by decide +kernel
  have hboth := Machine.run_append (M := machine clock lumbreWlStaticTable) shipped
    [.rinit plainRequest] (.enter redisGet ::
      ((Body.call (functionCall "fopen") .done 0 .done).events ++ [.leave 0]))
  rw [hrun, Option.bind_some, hrun'] at hboth
  rw [show (Event.rinit plainRequest :: .enter redisGet ::
      ((Body.call (functionCall "fopen") .done 0 .done).events ++ [.leave 0])) =
    [.rinit plainRequest] ++ (.enter redisGet ::
      ((Body.call (functionCall "fopen") .done 0 .done).events ++ [.leave 0])) from rfl, hboth,
    Option.map_some, hlast, Option.map_some, Option.some.injEq, Option.some.injEq] at hhanded
  obtain ⟨payload, hpayload⟩ := Option.isSome_iff_exists.mp hhanded
  refine ⟨w, w', r, payload, hrun, hrun', hlast, hpayload, ?_⟩
  have hrecord : ∀ limit, redisGet.record limit 4 =
      [(ascii "cmd", .str (ascii "GET")), (ascii "k", .str (ascii "user:1"))] := fun _ => rfl
  have hstill : ∀ i j, clock i - clock j = 0 := fun _ _ => show (0 : UInt64) - 0 = 0 from rfl
  rw [hdecode payload hpayload, Process.callFields, htrace, hid, hparent, hrecord,
    hstill (w'.proc.ticks - 1) w.proc.ticks]
  rfl

end Worker

end LumbreExt
