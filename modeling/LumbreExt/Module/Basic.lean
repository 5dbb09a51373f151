import LumbreExt.Ringbuf.Bounds
import LumbreExt.Span.Basic
import LumbreExt.Whitelist.Basic

/-!
# The module: globals, GINIT, RINIT, RSHUTDOWN, MSHUTDOWN

Transcription of `php_lumbre.h` and of the request lifecycle of `php_lumbre.c`.

* `LumbreGlobals` — the module globals. `ringbuf` is `none` while its `header` is `NULL`; `mpStorage`
  and `mpBufPtr` are the pointers `mp_storage` and `mp_buf.buf`, named by the number of the
  allocation they point into, and `mpBuf` holds the bytes behind them.
* `Process` — the globals with what the process holds outside of them, and the record of the spans
  the request has started and finished, which the source does not have.
* `RequestEnv` — what PHP and the operating system answer during one RINIT.
* `phpRinit`, `phpRshutdown`, `phpMshutdown` — the clock is a sequence of readings, and each
  `lumbre_clock_ns` takes the next one. The result `none` of `spanFinish` is an access through a
  `NULL` pointer.

A C string is the list of its bytes in front of the `NUL`.
-/

namespace LumbreExt

open Lib

/-! ## Settings and globals -/

/-- `LUMBRE_MSGPACK_BUF_SIZE`. -/
def lumbreMsgpackBufSize : UInt64 := 16384

/-- The INI-backed settings. -/
structure LumbreSettings where
  enabled : UInt8
  mode : Int64
  shmDir : List UInt8
  bufferSize : Int64
  triggerHeader : Option (List UInt8)
  maxQueryLen : Int64
  minDurationNs : Int64

/-- The defaults of the INI entries. -/
def iniDefaults : LumbreSettings where
  enabled := 1
  mode := 0
  shmDir := ascii "/dev/shm"
  bufferSize := 4194304
  triggerHeader := some (ascii "X-Trace-Debug")
  maxQueryLen := 2048
  minDurationNs := 0

/-- The module globals of one worker.
Source: `php_lumbre.h`, `ZEND_BEGIN_MODULE_GLOBALS(lumbre)` -/
structure LumbreGlobals extends LumbreSettings where
  ringbuf : Option LumbreRingbuf
  ringbufInitialized : ℤ
  mpBuf : LumbreMsgpackBuf
  mpBufPtr : Option ℕ
  mpStorage : Option ℕ
  ctx : LumbreContext
  rootSpan : LumbreSpan
  whitelist : LumbreWhitelist
  workerId : UInt64

/-- The context `memset` leaves. -/
def zeroContext : LumbreContext where
  traceId := zeroTraceId
  rootSpanId := 0
  currentParentId := 0
  spanCounter := 0
  active := 0
  fullTrace := 0

/-- The module globals of a worker that has not served a request. -/
def freshGlobals (settings : LumbreSettings) (whitelist : LumbreWhitelist) : LumbreGlobals where
  toLumbreSettings := settings
  ringbuf := none
  ringbufInitialized := 0
  mpBuf := ⟨fun _ => 0, 0, 0, []⟩
  mpBufPtr := none
  mpStorage := none
  ctx := zeroContext
  rootSpan := zeroSpan
  whitelist := whitelist
  workerId := 0

/-- GINIT builds the whitelist from the static table, and MINIT reads the settings; `none` when the
table does not fit.
Source: `php_lumbre.c`, `PHP_GINIT_FUNCTION(lumbre)`, `PHP_MINIT_FUNCTION(lumbre)` -/
def phpGinit (table : List LumbreWlStaticEntry) (settings : LumbreSettings) :
    Option LumbreGlobals :=
  (lumbreWhitelistInit lumbreWhitelistSize table).map (freshGlobals settings)

/-- The state of one worker. -/
structure Process where
  /-- The module globals. -/
  g : LumbreGlobals
  os : OsResources
  /-- The number of blocks `pemalloc` has returned to the module. -/
  allocations : ℕ
  /-- The number of clock readings so far. -/
  ticks : ℕ
  /-- The spans the request has started, with their payload. -/
  started : List LumbreSpan
  /-- What `lumbre_span_finish` did with the spans the request has finished. -/
  finished : List FinishResult

/-- The readings of the monotonic clock, in order. -/
abbrev Clock := ℕ → UInt64

/-! ## The request -/

/-- A value of `$_SERVER`, or an argument of a call. -/
inductive Zval
  | string (bytes : List UInt8)
  | other

/-- The answers to one RINIT. -/
structure RequestEnv where
  /-- The value of `lumbre_worker_id()`. -/
  workerId : UInt64
  /-- The block `pemalloc` returns with what it contains, `none` for `NULL`. -/
  pemalloc : Option Mem
  pid : UInt32
  initAnswers : InitAnswers
  /-- The array `$_SERVER`, if there is one. -/
  serverVars : Option (List (List UInt8 × Zval))
  /-- What `php_random_bytes` delivers; when it fails, it leaves the buffer as it is. -/
  randomBytes : Option TraceId
  sapiName : Option (List UInt8)
  pathTranslated : Option (List UInt8)
  requestUri : Option (List UInt8)
  requestMethod : Option (List UInt8)

/-- Source: `php_lumbre.c`, `lumbre_get_server_vars` with `zend_hash_str_find` -/
def RequestEnv.serverVar (env : RequestEnv) (key : List UInt8) : Option Zval :=
  env.serverVars.bind fun vars => vars.lookup key

/-- Source: `php_lumbre.c`, `lumbre_php_random_bytes` -/
def lumbrePhpRandomBytes (env : RequestEnv) : RandomFunc := fun buf =>
  match env.randomBytes with
  | some bytes => (0, bytes)
  | none => (-1, buf)

/-- The value of a hexadecimal digit of either case. -/
def hexDigit (c : UInt8) : Option UInt8 :=
  if 0x30 ≤ c ∧ c ≤ 0x39 then some (c - 0x30)
  else if 0x61 ≤ c ∧ c ≤ 0x66 then some (c - 0x61 + 10)
  else if 0x41 ≤ c ∧ c ≤ 0x46 then some (c - 0x41 + 10)
  else none

/-- The loop of `lumbre_hex_to_bin`, two digits at a time. -/
def hexPairs : List UInt8 → Option (List UInt8)
  | [] => some []
  | [_] => none
  | hi :: lo :: hex =>
      match hexDigit hi, hexDigit lo with
      | some h, some l => (hexPairs hex).map fun out => ((h <<< 4) ||| l) :: out
      | _, _ => none

/-- The bytes written to `out`; `none` is the return value `-1`, behind which `out` is not used.
Source: `php_lumbre.c`, `lumbre_hex_to_bin` -/
def lumbreHexToBin (hex : List UInt8) (outLen : ℕ) : Option (List UInt8) :=
  if hex.length ≠ outLen * 2 then none else hexPairs hex

/-- Sixteen bytes as a trace id. -/
def TraceId.ofList (bytes : List UInt8) : TraceId :=
  Vector.ofFn fun i => bytes.getD i 0

/-- The trace id in the `X-Trace-Id` header, if there is one. -/
def RequestEnv.propagated (env : RequestEnv) : Option TraceId :=
  match env.serverVar (ascii "HTTP_X_TRACE_ID") with
  | some (.string hex) =>
      if hex.length = 32 then (lumbreHexToBin hex 16).map TraceId.ofList else none
  | _ => none

/-- The name of the trigger header in `$_SERVER`: `HTTP_`, the dashes replaced and the letters in
upper case. A name that does not fit `header_key` has none. -/
def lumbreHeaderKey (header : List UInt8) : Option (List UInt8) :=
  if header.length + 6 < 256 then
    some (ascii "HTTP_" ++ header.map fun c =>
      if c = 0x2D then 0x5F else if 0x61 ≤ c ∧ c ≤ 0x7A then c - 0x61 + 0x41 else c)
  else none

/-- Whether the request carries the trigger header. -/
def RequestEnv.triggered (env : RequestEnv) (triggerHeader : Option (List UInt8)) : Bool :=
  match triggerHeader with
  | none => false
  | some [] => false
  | some header => ((lumbreHeaderKey header).bind env.serverVar).isSome

/-- The strings of the request line: the script under the `cli` SAPI. -/
def RequestEnv.uriAndMethod (env : RequestEnv) : List UInt8 × List UInt8 :=
  if env.sapiName = some (ascii "cli") then (env.pathTranslated.getD [], ascii "CLI")
  else (env.requestUri.getD [], env.requestMethod.getD [])

/-! ## Starting and finishing spans -/

/-- The pointer and the `uint32_t` length of a C or Zend string. -/
def strPtr (s : List UInt8) : BytePtr := some (Mem.ofList s)

/-- `(uint32_t)` of the length of a string. -/
def strLen32 (s : List UInt8) : UInt32 := UInt32.ofNat s.length

namespace Process

/-- The worker with the records of the request cleared. -/
def cleared (p : Process) : Process := { p with started := [], finished := [] }

/-- `lumbre_span_start(&span, type, &LUMBRE_G(ctx))`. -/
def spanStart (clock : Clock) (p : Process) (type : LumbreSpanTypeT) : LumbreSpan × Process :=
  let r := lumbreSpanStart type p.g.ctx (clock p.ticks)
  (r.1, { p with g.ctx := r.2, ticks := p.ticks + 1 })

/-- The worker behind a finish: what it left in the module globals. -/
def afterFinish (p : Process) (r : FinishResult) : Process :=
  { p with
    g.ringbuf := some r.rb
    g.mpBuf := r.mpBuf
    g.ctx := r.ctx
    ticks := p.ticks + 1
    finished := p.finished ++ [r] }

/-- `lumbre_span_finish(&span, &LUMBRE_G(ringbuf), &LUMBRE_G(mp_buf), &LUMBRE_G(ctx), ..)`, when the
daemon has published the position `readPos`. -/
def spanFinish (clock : Clock) (p : Process) (span : LumbreSpan) (minDurationNs readPos : UInt64) :
    Option (FinishResult × Process) :=
  match p.g.ringbuf, p.g.mpBufPtr with
  | some rb, some _ =>
      let r := lumbreSpanFinish span (rb.withReadPos readPos) p.g.mpBuf p.g.ctx minDurationNs
        p.g.maxQueryLen.toUInt64.toUInt32 (clock p.ticks)
      some (r, p.afterFinish r)
  | _, _ => none

/-! ## RINIT -/

/-- The first block of the lazy initialisation: the msgpack buffer. `none` is a failed `pemalloc`. -/
def allocStorage (p : Process) (env : RequestEnv) : Option Process :=
  match p.g.mpStorage, env.pemalloc with
  | some _, _ => some p
  | none, some m => some { p with
      g.mpStorage := some p.allocations
      g.mpBuf.buf := m
      allocations := p.allocations + 1 }
  | none, none => none

/-- `lumbre_ringbuf_init` of the lazy initialisation, and the flag behind it. A failure leaves the
handle as it is. -/
def openRingbuf (p : Process) (env : RequestEnv) : Process :=
  let r := lumbreRingbufInit env.initAnswers p.os p.g.shmDir env.pid env.workerId
    p.g.bufferSize.toUInt64.toUInt32
  let p := { p with os := r.1, g.ringbuf := r.2 <|> p.g.ringbuf }
  if r.2.isNone then { p with g.enabled := 0 } else { p with g.ringbufInitialized := 1 }

/-- The lazy initialisation, at the first request of the worker that gets so far. -/
def lazyInit (p : Process) (env : RequestEnv) : Process :=
  let p := { p with g.workerId := env.workerId }
  match p.allocStorage env with
  | none => { p with g.enabled := 0 }
  | some p =>
      openRingbuf { p with
        g.mpBufPtr := p.g.mpStorage
        g.mpBuf.capacity := lumbreMsgpackBufSize
        g.mpBuf.pos := 0 } env

/-- The context of the request: its trace id, and the trigger header. -/
def initContext (p : Process) (env : RequestEnv) : Process :=
  let ctx := lumbreContextInit p.g.ctx env.propagated (some (lumbrePhpRandomBytes env))
  { p with g.ctx := if env.triggered p.g.triggerHeader then { ctx with fullTrace := 1 } else ctx }

/-- The root span of the request. -/
def startRoot (clock : Clock) (p : Process) (env : RequestEnv) : Process :=
  let r := p.spanStart clock lumbreSpanHttpIn
  let span := lumbreSpanSetHttpIn r.1 (strPtr env.uriAndMethod.1) (strLen32 env.uriAndMethod.1)
    (strPtr env.uriAndMethod.2) (strLen32 env.uriAndMethod.2)
  { r.2 with
    g.rootSpan := span
    g.ctx.rootSpanId := span.spanId
    started := r.2.started ++ [span] }

/-- Source: `php_lumbre.c`, `PHP_RINIT_FUNCTION(lumbre)` -/
def phpRinit (clock : Clock) (p : Process) (env : RequestEnv) : Process :=
  if p.g.enabled = 0 then p
  else
    let p := if p.g.ringbufInitialized = 0 then p.lazyInit env else p
    -- both failures of the lazy initialisation return here, with the flag still clear
    if p.g.ringbufInitialized = 0 then p
    else (p.initContext env).startRoot clock env

/-! ## RSHUTDOWN and MSHUTDOWN -/

/-- Source: `php_lumbre.c`, `PHP_RSHUTDOWN_FUNCTION(lumbre)` -/
def phpRshutdown (clock : Clock) (p : Process) (readPos : UInt64) : Option Process :=
  if p.g.ctx.active = 0 then some p
  else
    (p.spanFinish clock p.g.rootSpan 0 readPos).map fun r =>
      { r.2 with g.rootSpan := r.1.span, g.ctx := lumbreContextReset r.2.g.ctx }

/-- MSHUTDOWN sees the globals of the thread it runs in, the main one of a thread-safe build.
Source: `php_lumbre.c`, `PHP_MSHUTDOWN_FUNCTION(lumbre)` -/
def phpMshutdown (p : Process) (sapiName : Option (List UInt8)) : Process :=
  let r := if p.g.ringbufInitialized ≠ 0 then
      -- in CLI the file stays, for the daemon to drain
      lumbreRingbufDestroy p.os p.g.ringbuf (sapiName = some (ascii "cli"))
    else (p.os, p.g.ringbuf)
  { p with
    os := r.1
    g.ringbuf := r.2
    g.mpStorage := none
    g.whitelist := lumbreWhitelistDestroy p.g.whitelist }

end Process

end LumbreExt
