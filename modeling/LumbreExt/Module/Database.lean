import LumbreExt.Module.Filter
import LumbreExt.Span.Truncation
import LumbreExt.Whitelist.Names

/-!
# What is recorded of a database call

The hook looks the call up in the whitelist, takes the first argument if it is a string, and infers
the family of the database from the class name. The three assume different things about a call.

* `DbFunction` — the five functions of PHP, with their names, the position of the SQL string and the
  family, as PHP has them; `ZendFunction.Calls` — the names of a call, in any case.
* `DbRecorded` — the call produces a database span, and what is recorded of it has the statement and
  the family.
* `executeInternalType_of_calls` — the whitelist has four of the five: it lists `PDO::execute`, which
  PHP does not have.
* `dbRecorded_iff` — a call is recorded so exactly when it is `PDO::query` with a string, whose
  length and limit survive their casts. The SQL string of the procedural functions is their second
  argument, and they have no class to infer a family from.
-/

namespace LumbreExt

open Lib

/-! ## The calls -/

/-- The functions that send SQL to a database. -/
inductive DbFunction
  | pdoQuery
  | pdoStatementExecute
  | mysqliQuery
  | mysqliRealQuery
  | pgQuery
  deriving DecidableEq

namespace DbFunction

/-- The scope name PHP gives the function. -/
def className : DbFunction → Option (List UInt8)
  | pdoQuery => some (ascii "PDO")
  | pdoStatementExecute => some (ascii "PDOStatement")
  | _ => none

def functionName : DbFunction → List UInt8
  | pdoQuery => ascii "query"
  | pdoStatementExecute => ascii "execute"
  | mysqliQuery => ascii "mysqli_query"
  | mysqliRealQuery => ascii "mysqli_real_query"
  | pgQuery => ascii "pg_query"

/-- The family of the database. -/
def dbType : DbFunction → List UInt8
  | pdoQuery => ascii "pdo"
  | pdoStatementExecute => ascii "pdo"
  | mysqliQuery => ascii "mysql"
  | mysqliRealQuery => ascii "mysql"
  | pgQuery => ascii "pgsql"

/-- The argument that is the SQL string: the first of a method, the one behind the link of a
function; a prepared statement is executed without one. -/
def sqlArg : DbFunction → List Zval → Option Zval
  | pdoQuery, args => args[0]?
  | pdoStatementExecute, _ => none
  | _, args => args[1]?

/-- The SQL string the call carries. -/
def sql (f : DbFunction) (args : List Zval) : Option (List UInt8) :=
  match f.sqlArg args with
  | some (.string s) => some s
  | _ => none

end DbFunction

/-- The names of the call are those of the function, in any case. -/
structure ZendFunction.Calls (func : ZendFunction) (f : DbFunction) : Prop where
  scope : func.scopeName.isSome = f.className.isSome
  className : EqFold (f.className.getD []) (func.scopeName.getD [])
  functionName : ∃ name, func.functionName = some name ∧ EqFold f.functionName name

/-- The limit as the setter and the finish are given it. -/
def LumbreGlobals.queryLimit (g : LumbreGlobals) : UInt32 := g.maxQueryLen.toUInt64.toUInt32

/-- The span a call starts, if it is traced. -/
def Process.startedSpan (clock : Clock) (p : Process) (call : HookCall) : Option LumbreSpan :=
  (p.enter clock call).1.span?

/-- **The call is recorded with its statement and its family**: it produces a database span, and what
is encoded of that span, whenever it is finished, has the SQL string cut to `lumbre.max_query_len`, if
the call carries one, and the family. -/
def DbRecorded (clock : Clock) (p : Process) (f : DbFunction) (func : ZendFunction)
    (args : List Zval) : Prop :=
  ∃ span, p.startedSpan clock (.internal func args) = some span ∧ span.type = lumbreSpanDb ∧
    ∀ clockNs,
      let encoded := span.recorded p.g.queryLimit clockNs
      (∀ sql, f.sql args = some sql →
        encoded.query.bytes encoded.queryLen = sql.take p.g.maxQueryLen.toInt.toNat) ∧
      encoded.dbType.bytes encoded.dbTypeLen = f.dbType

/-! ## The lookup -/

lemma read_optPtr (s : Option (List UInt8)) : (optPtr s).read (optLen s) = s.getD [] := by
  cases s with
  | none => rfl
  | some bs => exact Mem.load_ofList bs

section lookup

variable {g : LumbreGlobals} {func : ZendFunction} {f : DbFunction}

/-- The guards of the hook, and what the whitelist says. -/
lemma executeInternalType_cases (hwhitelist : g.whitelist = builtinWhitelist)
    (henabled : g.enabled ≠ 0) (hactive : g.ctx.active ≠ 0) (hfunc : func.Calls f) :
    ((∀ r ∈ lumbreWlStaticTable, ¬ r.Named (f.className.getD []) f.functionName) ∧
        g.executeInternalType func = none) ∨
      ∃ r ∈ lumbreWlStaticTable, r.Named (f.className.getD []) f.functionName ∧
        g.executeInternalType func = some r.spanType := by
  obtain ⟨name, hname, hfold⟩ := hfunc.functionName
  have hclsColon : colon ∉ (f.className.getD []) := by cases f <;> decide
  have hfuncColon : colon ∉ f.functionName := by cases f <;> decide
  have hguard : ¬ (g.enabled = 0 ∨ g.ctx.active = 0) := fun h => h.elim henabled hactive
  have hread : (Mem.ofList name).load 0 name.length = name := Mem.load_ofList name
  have hmatch := built_builtinWhitelist.match_eq_find (by decide) lumbreWlStaticTable_key_ne_nil
    le_rfl (optPtr func.scopeName) (optLen func.scopeName) (some (Mem.ofList name)) name.length
  rw [lumbreWlBuildKey_eq_nameKey, read_optPtr, hread] at hmatch
  have hnamed : ∀ r ∈ lumbreWlStaticTable, r.key = nameKey (func.scopeName.getD []) name ↔
      r.Named (f.className.getD []) f.functionName := by
    intro r hr
    rw [r.named_congr hfunc.className hfold]
    obtain ⟨hrcls, hrfunc⟩ := lumbreWlStaticTable_colon r hr
    have hne := lumbreWlStaticTable_key_ne_nil r hr
    rw [lumbreWlStaticTable_key r hr] at hne ⊢
    exact nameKey_eq_iff hrcls (colon_not_mem_of_eqFold hfunc.className hclsColon) hrfunc
      (colon_not_mem_of_eqFold hfold hfuncColon) hne
  have hptr : ¬ optPtr func.functionName = none := by
    rw [hname]
    exact Option.some_ne_none _
  have htype : g.executeInternalType func =
      (lumbreWlStaticTable.find? fun r => r.key = nameKey (func.scopeName.getD []) name).map
        fun r => r.spanType := by
    have hmatch' : lumbreWhitelistMatch lumbreWhitelistSize g.whitelist (optPtr func.scopeName)
        (optLen func.scopeName) (optPtr func.functionName) (optLen func.functionName) =
          some ((lumbreWlStaticTable.find? fun r =>
            r.key = nameKey (func.scopeName.getD []) name).map rowEntry) := by
      rw [hwhitelist, hname]
      exact hmatch
    unfold LumbreGlobals.executeInternalType
    rw [if_neg hguard]
    dsimp only [lumbreExtractNames]
    rw [if_neg hptr, hmatch', Option.join_some, Option.map_map]
    rfl
  cases hfind : lumbreWlStaticTable.find? fun r =>
    r.key = nameKey (func.scopeName.getD []) name with
  | none =>
      refine Or.inl ⟨?_, by rw [htype, hfind]; rfl⟩
      intro r hr hrNamed
      exact List.find?_eq_none.mp hfind r hr (decide_eq_true ((hnamed r hr).mpr hrNamed))
  | some r =>
      have hr := List.mem_of_find?_eq_some hfind
      have hkey := List.find?_some hfind
      exact Or.inr ⟨r, hr, (hnamed r hr).mp (of_decide_eq_true hkey), by rw [htype, hfind]; rfl⟩

/-- **The whitelist has all of the functions but `PDOStatement::execute`.** -/
lemma executeInternalType_of_calls (hwhitelist : g.whitelist = builtinWhitelist)
    (henabled : g.enabled ≠ 0) (hactive : g.ctx.active ≠ 0) (hfunc : func.Calls f) :
    g.executeInternalType func =
      if f = .pdoStatementExecute then none else some lumbreSpanDb := by
  have hrows : ∀ f : DbFunction, if f = .pdoStatementExecute then
      ∀ r ∈ lumbreWlStaticTable, ¬ r.Named (f.className.getD []) f.functionName
      else (∃ r ∈ lumbreWlStaticTable, r.Named (f.className.getD []) f.functionName) ∧
        ∀ r ∈ lumbreWlStaticTable, r.Named (f.className.getD []) f.functionName →
          r.spanType = lumbreSpanDb := by
    intro f
    cases f <;> decide
  have hf := hrows f
  rcases executeInternalType_cases hwhitelist henabled hactive hfunc with
    ⟨hno, htype⟩ | ⟨r, hr, hrNamed, htype⟩
  · split_ifs at hf ⊢
    · exact htype
    · obtain ⟨⟨r, hr, hrNamed⟩, _⟩ := hf
      exact absurd hrNamed (hno r hr)
  · split_ifs at hf ⊢
    · exact absurd hrNamed (hf r hr)
    · rw [htype, hf.2 r hr hrNamed]

end lookup

/-! ## The payload -/

/-- `PDO` in any case is three letters the inference looks for. -/
lemma startsPdo_of_eqFold {name : List UInt8} (h : EqFold (ascii "PDO") name) :
    name.length = 3 ∧ startsPdo name := by
  have hlength : name.length = 3 := h.length_eq.symm
  obtain ⟨a, b, c, rfl⟩ := List.length_eq_three.mp hlength
  have hlower : [lower a, lower b, lower c] = [0x70, 0x64, 0x6F] := h.symm
  simp only [List.cons.injEq, and_true] at hlower
  obtain ⟨ha, hb, hc⟩ := hlower
  refine ⟨rfl, ?_, ?_, ?_⟩
  · exact (eq_or_eq_of_lower_eq ha).imp (congrArg some) (congrArg some)
  · exact (eq_or_eq_of_lower_eq hb).imp (congrArg some) (congrArg some)
  · exact (eq_or_eq_of_lower_eq hc).imp (congrArg some) (congrArg some)

/-- The family of `PDO` is inferred from the class name, in any case. -/
lemma lumbreInferDbType_pdo {func : ZendFunction} (hfunc : func.Calls .pdoQuery) :
    lumbreInferDbType func.scopeName = (literal "pdo", 3) := by
  obtain ⟨name, hname⟩ := Option.isSome_iff_exists.mp hfunc.scope
  have hfold := hfunc.className
  rw [hname] at hfold ⊢
  exact if_pos (startsPdo_of_eqFold hfold)

/-- A function has no class name to infer a family from. -/
lemma lumbreInferDbType_function {func : ZendFunction} {f : DbFunction} (hfunc : func.Calls f)
    (hclass : f.className = none) : lumbreInferDbType func.scopeName = (literal "unknown", 7) := by
  have hscope := hfunc.scope
  rw [hclass, Option.isSome_none, Option.isSome_eq_false_iff, Option.isNone_iff_eq_none] at hscope
  rw [hscope]
  rfl

section payload

variable (clock : Clock) {p : Process} {func : ZendFunction} {args : List Zval}

/-- The span of a traced call with its payload. -/
lemma startedSpan_eq (htype : p.g.executeInternalType func = some lumbreSpanDb) :
    p.startedSpan clock (.internal func args) =
      some (p.g.executeInternalPayload func args lumbreSpanDb
        (lumbreSpanStart lumbreSpanDb p.g.ctx (clock p.ticks)).1) := by
  have hspanType : p.g.spanType (.internal func args) = some lumbreSpanDb := htype
  unfold Process.startedSpan Process.enter
  rw [hspanType]
  rfl

/-- A call that is not in the whitelist has no span. -/
lemma startedSpan_eq_none (htype : p.g.executeInternalType func = none) :
    p.startedSpan clock (.internal func args) = none := by
  have hspanType : p.g.spanType (.internal func args) = none := htype
  unfold Process.startedSpan Process.enter
  rw [hspanType]
  rfl

/-- A call whose first argument is a string has it for its query. -/
lemma executeInternalPayload_string (g : LumbreGlobals) (func : ZendFunction) (s : List UInt8)
    (rest : List Zval) (span : LumbreSpan) :
    g.executeInternalPayload func (.string s :: rest) lumbreSpanDb span =
      lumbreSpanSetDb span (strPtr s) (strLen32 s) (lumbreInferDbType func.scopeName).1
        (lumbreInferDbType func.scopeName).2 0 g.queryLimit := by
  unfold LumbreGlobals.executeInternalPayload
  dsimp only
  rw [if_pos rfl]
  exact if_pos (Option.some_ne_none _)

/-- Any other call has no payload at all. -/
lemma executeInternalPayload_other (g : LumbreGlobals) (func : ZendFunction)
    (hargs : ∀ s rest, args ≠ .string s :: rest) (span : LumbreSpan) :
    g.executeInternalPayload func args lumbreSpanDb span = span := by
  have hnone : lumbreExtractFirstStrArg args = (none, 0) := by
    unfold lumbreExtractFirstStrArg
    split
    · rename_i s rest
      exact absurd rfl (hargs s rest)
    · rfl
  unfold LumbreGlobals.executeInternalPayload
  dsimp only
  rw [if_pos rfl, hnone, if_neg (fun h => h rfl)]

end payload

/-! ## What is encoded -/

/-- **What is encoded of a call whose first argument is the SQL string.** -/
lemma recorded_sql (span : LumbreSpan) (s : List UInt8) (dbType : BytePtr)
    (dbTypeLen rowsAffected maxQueryLen : UInt32) (clockNs : UInt64) :
    let encoded := (lumbreSpanSetDb span (strPtr s) (strLen32 s) dbType dbTypeLen rowsAffected
      maxQueryLen).recorded maxQueryLen clockNs
    encoded.query.bytes encoded.queryLen = s.take (min (s.length % 2 ^ 32) maxQueryLen.toNat) := by
  have hlen := span.toNat_setDb_queryLen (strPtr s) dbType (strLen32 s) dbTypeLen rowsAffected
    maxQueryLen
  have hcast : (strLen32 s).toNat = s.length % 2 ^ 32 := UInt32.toNat_ofNat'
  have hle : min (s.length % 2 ^ 32) maxQueryLen.toNat ≤ s.length := by
    have hmod := Nat.mod_le s.length (2 ^ 32)
    omega
  rw [hcast, ← LumbreSpan.truncatedQueryLen_setDb] at hlen
  rw [← Mem.load_ofList_of_le hle, ← hlen]
  rfl

/-- Two prefixes of a string, the first of which is not longer than it, are equal exactly when they
have one length. -/
lemma take_eq_take_iff {s : List UInt8} {m n : ℕ} (hm : m ≤ s.length) :
    s.take m = s.take n ↔ m = min s.length n := by
  rw [List.take_eq_take_iff]
  omega

/-! ## The result -/

/-- The arguments of `PDO::query` that carry an SQL string. -/
lemma sql_pdoQuery_eq_some_iff {args : List Zval} {s : List UInt8} :
    DbFunction.pdoQuery.sql args = some s ↔ ∃ rest, args = .string s :: rest := by
  unfold DbFunction.sql DbFunction.sqlArg
  cases args with
  | nil => simp
  | cons arg rest => cases arg <;> simp

/-- A span with this family is not recorded with another one. -/
lemma not_dbRecorded {clock : Clock} {p : Process} {f : DbFunction} {func : ZendFunction}
    {args : List Zval} {span : LumbreSpan}
    (hspan : p.startedSpan clock (.internal func args) = some span)
    (hfamily : span.dbType.bytes span.dbTypeLen ≠ f.dbType) : ¬ DbRecorded clock p f func args := by
  rintro ⟨span', hspan', _, hencoded⟩
  obtain rfl : span = span' := Option.some.inj (hspan.symm.trans hspan')
  exact hfamily (hencoded 0).2

/-- A function without a class is recorded with no family or with none of the three. -/
lemma not_dbRecorded_function {clock : Clock} {p : Process} {f : DbFunction} {func : ZendFunction}
    (hfunc : func.Calls f) (hclass : f.className = none)
    (htype : p.g.executeInternalType func = some lumbreSpanDb) (args : List Zval) :
    ¬ DbRecorded clock p f func args := by
  by_cases hstring : ∃ s rest, args = .string s :: rest
  · obtain ⟨s, rest, rfl⟩ := hstring
    refine not_dbRecorded (startedSpan_eq clock htype) ?_
    rw [executeInternalPayload_string, lumbreInferDbType_function hfunc hclass]
    change BytePtr.bytes (literal "unknown") 7 ≠ f.dbType
    cases f <;> decide
  · refine not_dbRecorded (startedSpan_eq clock htype) ?_
    rw [executeInternalPayload_other _ _ fun s rest h => hstring ⟨s, rest, h⟩]
    change BytePtr.bytes none 0 ≠ f.dbType
    cases f <;> decide

/-- `PDO::query` is recorded when its first argument is a string, and as much of it as is to be. -/
lemma dbRecorded_pdoQuery {clock : Clock} {p : Process} {func : ZendFunction}
    (hfunc : func.Calls .pdoQuery) (htype : p.g.executeInternalType func = some lumbreSpanDb)
    (args : List Zval) :
    DbRecorded clock p .pdoQuery func args ↔
      ∃ s, DbFunction.pdoQuery.sql args = some s ∧
        min (s.length % 2 ^ 32) p.g.queryLimit.toNat =
          min s.length p.g.maxQueryLen.toInt.toNat := by
  by_cases hstring : ∃ s rest, args = .string s :: rest
  · obtain ⟨s, rest, rfl⟩ := hstring
    have hspan : p.startedSpan clock (.internal func (.string s :: rest)) = _ :=
      startedSpan_eq clock htype
    rw [executeInternalPayload_string, lumbreInferDbType_pdo hfunc] at hspan
    have hsql : DbFunction.pdoQuery.sql (.string s :: rest) = some s := rfl
    have hle : min (s.length % 2 ^ 32) p.g.queryLimit.toNat ≤ s.length := by
      have hmod := Nat.mod_le s.length (2 ^ 32)
      omega
    constructor
    · rintro ⟨span, hspan', _, hencoded⟩
      obtain rfl := Option.some.inj (hspan.symm.trans hspan')
      have hquery := (hencoded 0).1 s hsql
      rw [recorded_sql, take_eq_take_iff hle] at hquery
      exact ⟨s, hsql, hquery⟩
    · rintro ⟨s', hs', hlen⟩
      obtain rfl : s = s' := Option.some.inj (hsql.symm.trans hs')
      refine ⟨_, hspan, rfl, fun clockNs => ⟨?_, ?_⟩⟩
      · intro sql hcarried
        obtain rfl : s = sql := Option.some.inj (hsql.symm.trans hcarried)
        rw [recorded_sql, take_eq_take_iff hle]
        exact hlen
      · change BytePtr.bytes (literal "pdo") 3 = ascii "pdo"
        exact bytes_ofList rfl
  · refine iff_of_false ?_ ?_
    · refine not_dbRecorded (startedSpan_eq clock htype) ?_
      rw [executeInternalPayload_other _ _ fun s rest h => hstring ⟨s, rest, h⟩]
      change BytePtr.bytes none 0 ≠ ascii "pdo"
      decide
    · rintro ⟨s, hsql, _⟩
      obtain ⟨rest, hargs⟩ := sql_pdoQuery_eq_some_iff.mp hsql
      exact hstring ⟨s, rest, hargs⟩

/-- **A database call is recorded with its statement and its family exactly when it is `PDO::query`
with a string**, and the casts of its length and of the limit to `uint32_t` do not change how much is
kept. For every reachable state of the shipped module in which tracing is active, every casing of the
names and all arguments. -/
theorem dbRecorded_iff {clock : Clock} {w : Worker}
    (hreach : (Worker.machine clock lumbreWlStaticTable).Reachable w)
    (henabled : w.proc.g.enabled ≠ 0) (hactive : w.proc.g.ctx.active ≠ 0) {func : ZendFunction}
    {f : DbFunction} (hfunc : func.Calls f) (args : List Zval) :
    DbRecorded clock w.proc f func args ↔
      f = .pdoQuery ∧ ∃ s, f.sql args = some s ∧
        min (s.length % 2 ^ 32) w.proc.g.queryLimit.toNat =
          min s.length w.proc.g.maxQueryLen.toInt.toNat := by
  have htype := executeInternalType_of_calls (Worker.whitelist_of_reachable hreach) henabled hactive
    hfunc
  by_cases hquery : f = .pdoQuery
  · subst hquery
    rw [dbRecorded_pdoQuery hfunc htype]
    exact (and_iff_right rfl).symm
  refine iff_of_false ?_ (fun h => hquery h.1)
  by_cases hstatement : f = .pdoStatementExecute
  · rintro ⟨span, hspan, _⟩
    rw [if_pos hstatement] at htype
    rw [startedSpan_eq_none clock htype] at hspan
    exact Option.some_ne_none span hspan.symm
  · have hclass : f.className = none := by
      cases f with
      | pdoQuery => exact absurd rfl hquery
      | pdoStatementExecute => exact absurd rfl hstatement
      | mysqliQuery => rfl
      | mysqliRealQuery => rfl
      | pgQuery => rfl
    rw [if_neg hstatement] at htype
    exact not_dbRecorded_function hfunc hclass htype args

/-- A worker of the shipped module in its first request. -/
lemma exists_firstRequest :
    ∃ w, (Worker.machine (fun _ => 0) lumbreWlStaticTable).run Worker.shipped
        [.rinit Worker.plainRequest] = some w ∧ w.proc.g.enabled ≠ 0 ∧ w.proc.g.ctx.active ≠ 0 ∧
      w.proc.g.maxQueryLen = 2048 := by
  have hrun : ((Worker.machine (fun _ => 0) lumbreWlStaticTable).run Worker.shipped
      [.rinit Worker.plainRequest]).map (fun w =>
        (w.proc.g.enabled, w.proc.g.ctx.active, w.proc.g.maxQueryLen)) = some (1, 1, 2048) := by
    decide +kernel
  obtain ⟨w, hrun, hsettings⟩ := Option.map_eq_some_iff.mp hrun
  simp only [Prod.mk.injEq] at hsettings
  obtain ⟨henabled, hactive, hlimit⟩ := hsettings
  refine ⟨w, hrun, ?_, ?_, hlimit⟩
  · rw [henabled]
    decide
  · rw [hactive]
    decide

/-- `PDO::query` in another case. -/
theorem dbRecorded_iff_pdo_query :
    ∃ w, (Worker.machine (fun _ => 0) lumbreWlStaticTable).run Worker.shipped
        [.rinit Worker.plainRequest] = some w ∧
      DbRecorded (fun _ => 0) w.proc .pdoQuery
        ⟨some (ascii "QUERY"), some (ascii "pdo"), false, none⟩ [.string (ascii "SELECT 1")] := by
  obtain ⟨w, hrun, henabled, hactive, hlimit⟩ := exists_firstRequest
  have hreach := (Machine.Reachable.start Worker.start_shipped).run hrun
  refine ⟨w, hrun, (dbRecorded_iff hreach henabled hactive ⟨rfl, by decide, _, rfl, by decide⟩
    _).mpr ⟨rfl, ascii "SELECT 1", rfl, ?_⟩⟩
  rw [LumbreGlobals.queryLimit, hlimit]
  decide

/-- `mysqli_query($link, "SELECT 1")` in a traced request is recorded without its statement and its
family, and the `execute` of a prepared statement produces no span. -/
theorem not_dbRecorded_mysqli_query :
    ∃ w, (Worker.machine (fun _ => 0) lumbreWlStaticTable).run Worker.shipped
        [.rinit Worker.plainRequest] = some w ∧ w.proc.g.enabled ≠ 0 ∧ w.proc.g.ctx.active ≠ 0 ∧
      ¬ DbRecorded (fun _ => 0) w.proc .mysqliQuery
        ⟨some (ascii "mysqli_query"), none, false, none⟩ [.other, .string (ascii "SELECT 1")] ∧
      w.proc.startedSpan (fun _ => 0)
        (.internal ⟨some (ascii "execute"), some (ascii "PDOStatement"), false, none⟩ []) = none := by
  obtain ⟨w, hrun, henabled, hactive, _⟩ := exists_firstRequest
  have hwhitelist := Worker.whitelist_of_reachable
    ((Machine.Reachable.start Worker.start_shipped).run hrun)
  have hmysqli : ZendFunction.Calls ⟨some (ascii "mysqli_query"), none, false, none⟩ .mysqliQuery :=
    ⟨rfl, rfl, _, rfl, rfl⟩
  have hexecute : ZendFunction.Calls ⟨some (ascii "execute"), some (ascii "PDOStatement"), false,
      none⟩ .pdoStatementExecute := ⟨rfl, rfl, _, rfl, rfl⟩
  refine ⟨w, hrun, henabled, hactive, ?_, ?_⟩
  · exact not_dbRecorded_function hmysqli rfl
      (executeInternalType_of_calls hwhitelist henabled hactive hmysqli) _
  · exact startedSpan_eq_none _
      (executeInternalType_of_calls hwhitelist henabled hactive hexecute)

end LumbreExt
