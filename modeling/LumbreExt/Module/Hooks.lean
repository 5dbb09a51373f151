import LumbreExt.Module.Basic

/-!
# The hooks

Transcription of `lumbre_execute_internal` and `lumbre_execute_ex` of `php_lumbre.c`, with their
helpers. A hook runs the original handler in its middle, so it is split there.

* `HookCall` — a call that reaches one of the hooks, with what it reads of its `execute_data`.
* `LumbreGlobals.spanType`, `LumbreGlobals.payload` — the guards of a hook, with the type of the span
  it starts, or `none` when the call is passed through; and the payload it sets.
* `Process.enter`, `Process.leave` — a hook up to the original handler, and from there on. What
  stands on the C stack in between is a `HookFrame`.
-/

namespace LumbreExt

open Lib

/-! ## Calls -/

/-- What the hooks read of a `zend_function`: `userFunction` says whether its type is
`ZEND_USER_FUNCTION`. -/
structure ZendFunction where
  functionName : Option (List UInt8)
  scopeName : Option (List UInt8)
  userFunction : Bool
  filename : Option (List UInt8)

/-- A call of an internal function with its arguments, or of a userland function with the line
number of its `opline`. -/
inductive HookCall
  | internal (func : ZendFunction) (args : List Zval)
  | ex (func : Option ZendFunction) (lineno : Option UInt32)

/-- The pointer to a Zend string that may be missing. -/
def optPtr (s : Option (List UInt8)) : BytePtr := s.bind strPtr

/-- The length of a Zend string that may be missing. -/
def optLen (s : Option (List UInt8)) : ℕ := (s.getD []).length

/-- The class and the function name of a call.
Source: `php_lumbre.c`, `lumbre_extract_names` -/
def lumbreExtractNames (func : ZendFunction) : (BytePtr × ℕ) × (BytePtr × ℕ) :=
  ((optPtr func.scopeName, optLen func.scopeName),
    (optPtr func.functionName, optLen func.functionName))

/-- The byte `i` of a name is the letter `lower`, or its upper case. -/
def isLetter (name : List UInt8) (i : ℕ) (lower : UInt8) : Prop :=
  name[i]? = some lower ∨ name[i]? = some (lower - 0x20)

instance (name : List UInt8) (i : ℕ) (lower : UInt8) : Decidable (isLetter name i lower) :=
  inferInstanceAs (Decidable (_ ∨ _))

/-- The name starts with `PDO`, in any case. -/
def startsPdo (name : List UInt8) : Prop :=
  isLetter name 0 0x70 ∧ isLetter name 1 0x64 ∧ isLetter name 2 0x6F

instance (name : List UInt8) : Decidable (startsPdo name) :=
  inferInstanceAs (Decidable (_ ∧ _ ∧ _))

/-- The name starts with `mysqli`, in any case. -/
def startsMysqli (name : List UInt8) : Prop :=
  isLetter name 0 0x6D ∧ isLetter name 1 0x79 ∧ isLetter name 2 0x73 ∧ isLetter name 3 0x71 ∧
    isLetter name 4 0x6C ∧ isLetter name 5 0x69

instance (name : List UInt8) : Decidable (startsMysqli name) :=
  inferInstanceAs (Decidable (_ ∧ _ ∧ _ ∧ _ ∧ _ ∧ _))

/-- Source: `php_lumbre.c`, `lumbre_infer_db_type` -/
def lumbreInferDbType (className : Option (List UInt8)) : BytePtr × UInt32 :=
  match className with
  | none => (literal "unknown", 7)
  | some name =>
      if name.length = 3 ∧ startsPdo name then (literal "pdo", 3)
      else if 6 ≤ name.length ∧ startsMysqli name then (literal "mysql", 5)
      -- `PDOStatement`: the fourth letter is compared in upper case only
      else if 12 ≤ name.length ∧ startsPdo name ∧ name[3]? = some 0x53 then (literal "pdo", 3)
      else (literal "pgsql", 5)

/-- Source: `php_lumbre.c`, `lumbre_extract_first_str_arg` -/
def lumbreExtractFirstStrArg (args : List Zval) : BytePtr × UInt32 :=
  match args with
  | .string s :: _ => (strPtr s, strLen32 s)
  | _ => (none, 0)

/-! ## The heads of the hooks -/

namespace LumbreGlobals

/-- The guards of the internal hook, and the type of the whitelist entry. The probe loop has fuel for
every slot of the table.
Source: `php_lumbre.c`, `lumbre_execute_internal` -/
def executeInternalType (g : LumbreGlobals) (func : ZendFunction) : Option LumbreSpanTypeT :=
  if g.enabled = 0 ∨ g.ctx.active = 0 then none
  else
    let names := lumbreExtractNames func
    if names.2.1 = none then none
    else
      let entry := lumbreWhitelistMatch lumbreWhitelistSize g.whitelist names.1.1 names.1.2
        names.2.1 names.2.2
      entry.join.map fun e => e.spanType

/-- The guards of the userland hook.
Source: `php_lumbre.c`, `lumbre_execute_ex` -/
def executeExType (g : LumbreGlobals) (func : Option ZendFunction) : Option LumbreSpanTypeT :=
  if g.enabled = 0 ∨ g.ctx.active = 0 then none
  else if g.mode ≠ 1 ∧ g.ctx.fullTrace = 0 then none
  else if (func.bind fun f => f.functionName) = none then none
  else some lumbreSpanFunc

/-- The type of the span a call starts, `none` when it is passed through. -/
def spanType (g : LumbreGlobals) : HookCall → Option LumbreSpanTypeT
  | .internal func _ => g.executeInternalType func
  | .ex func _ => g.executeExType func

/-- The `switch` of the internal hook.
Source: `php_lumbre.c`, `lumbre_execute_internal` -/
def executeInternalPayload (g : LumbreGlobals) (func : ZendFunction) (args : List Zval)
    (type : LumbreSpanTypeT) (span : LumbreSpan) : LumbreSpan :=
  let arg := lumbreExtractFirstStrArg args
  if type = lumbreSpanDb then
    let db := lumbreInferDbType func.scopeName
    if arg.1 ≠ none then
      lumbreSpanSetDb span arg.1 arg.2 db.1 db.2 0 g.maxQueryLen.toUInt64.toUInt32
    else span
  else if type = lumbreSpanRedis ∨ type = lumbreSpanMemcached ∨ type = lumbreSpanCache then
    let name := (lumbreExtractNames func).2
    lumbreSpanSetCache span name.1 (UInt32.ofNat name.2)
      (if arg.1 ≠ none then arg.1 else literal "") arg.2
  else if type = lumbreSpanFileIo then
    if arg.1 ≠ none then lumbreSpanSetFileIo span arg.1 arg.2 else span
  else span

/-- The file and the line of a userland function. -/
def executeExPosition (func : ZendFunction) (lineno : Option UInt32) :
    BytePtr × UInt32 × UInt32 :=
  if func.userFunction then
    (optPtr func.filename, UInt32.ofNat (optLen func.filename), lineno.getD 0)
  else (none, 0, 0)

/-- The payload of a userland call.
Source: `php_lumbre.c`, `lumbre_execute_ex` -/
def executeExPayload (func : ZendFunction) (lineno : Option UInt32) (span : LumbreSpan) :
    LumbreSpan :=
  let names := lumbreExtractNames func
  let position := executeExPosition func lineno
  lumbreSpanSetFunc span names.1.1 (UInt32.ofNat names.1.2) names.2.1 (UInt32.ofNat names.2.2)
    (if position.1 ≠ none then position.1 else literal "") position.2.1 position.2.2

/-- The payload a call sets on its span. -/
def payload (g : LumbreGlobals) (type : LumbreSpanTypeT) (span : LumbreSpan) :
    HookCall → LumbreSpan
  | .internal func args => g.executeInternalPayload func args type span
  | .ex (some func) lineno => executeExPayload func lineno span
  | .ex none _ => span

end LumbreGlobals

/-! ## Entering and leaving -/

/-- What a hook keeps on the C stack while the original handler runs. -/
inductive HookFrame
  | passThrough
  | traced (span : LumbreSpan)

namespace Process

/-- A hook up to the original handler.
Source: `php_lumbre.c`, `lumbre_execute_internal`, `lumbre_execute_ex` -/
def enter (clock : Clock) (p : Process) (call : HookCall) : HookFrame × Process :=
  match p.g.spanType call with
  | none => (.passThrough, p)
  | some type =>
      let r := p.spanStart clock type
      let span := p.g.payload type r.1 call
      (.traced span, { r.2 with started := r.2.started ++ [span] })

/-- A hook behind the original handler; `none` is an access through a `NULL` pointer.
Source: `php_lumbre.c`, `lumbre_execute_internal`, `lumbre_execute_ex` -/
def leave (clock : Clock) (p : Process) (frame : HookFrame) (readPos : UInt64) : Option Process :=
  match frame with
  | .passThrough => some p
  | .traced span =>
      (p.spanFinish clock span p.g.minDurationNs.toUInt64 readPos).map fun r => r.2

end Process

end LumbreExt
