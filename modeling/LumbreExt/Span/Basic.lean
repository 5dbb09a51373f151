import LumbreExt.Msgpack.Items
import LumbreExt.Ringbuf.Basic

/-!
# The span lifecycle

Transcription of `lumbre_span.h` and `lumbre_span.c`.

* `LumbreSpan`, `LumbreContext` — the span of one call and the context of one request. A payload
  pointer is a `BytePtr`, next to the length it was stored with.
* `lumbreSpanStart`, `lumbreSpanFinish` — every clock reading is an argument. What `finish` leaves
  behind in its arguments is a `FinishResult`, together with the payload it handed to
  `lumbre_ringbuf_write`, if it came to that.
* `lumbreSpanEncode` — the packer calls as a list (`commonCalls`, `typeCalls`), made one after the
  other until one fails, which is what a sequence of `LUMBRE_PACK_OR_FAIL` does.
-/

namespace LumbreExt

open Lib

/-! ## Types and constants -/

/-- `lumbre_span_type_t`. -/
abbrev LumbreSpanTypeT := UInt8

/-- `LUMBRE_SPAN_HTTP_IN`. -/
def lumbreSpanHttpIn : LumbreSpanTypeT := 1

/-- `LUMBRE_SPAN_HTTP_OUT`. -/
def lumbreSpanHttpOut : LumbreSpanTypeT := 2

/-- `LUMBRE_SPAN_DB`. -/
def lumbreSpanDb : LumbreSpanTypeT := 3

/-- `LUMBRE_SPAN_REDIS`. -/
def lumbreSpanRedis : LumbreSpanTypeT := 4

/-- `LUMBRE_SPAN_MEMCACHED`. -/
def lumbreSpanMemcached : LumbreSpanTypeT := 5

/-- `LUMBRE_SPAN_FILE_IO`. -/
def lumbreSpanFileIo : LumbreSpanTypeT := 6

/-- `LUMBRE_SPAN_SOCKET`. -/
def lumbreSpanSocket : LumbreSpanTypeT := 7

/-- `LUMBRE_SPAN_FUNC`. -/
def lumbreSpanFunc : LumbreSpanTypeT := 8

/-- `LUMBRE_SPAN_CACHE`. -/
def lumbreSpanCache : LumbreSpanTypeT := 9

/-- `uint8_t trace_id[16]`. -/
abbrev TraceId := Vector UInt8 16

/-- All bytes zero. -/
def zeroTraceId : TraceId := Vector.replicate 16 0

/-- Source: `lumbre_span.h`, `lumbre_span_t` -/
structure LumbreSpan where
  type : LumbreSpanTypeT
  traceId : TraceId
  spanId : UInt64
  parentId : UInt64
  startNs : UInt64
  durationNs : UInt64
  url : BytePtr
  urlLen : UInt32
  method : BytePtr
  methodLen : UInt32
  statusCode : UInt16
  query : BytePtr
  queryLen : UInt32
  dbType : BytePtr
  dbTypeLen : UInt32
  rowsAffected : UInt32
  cacheCmd : BytePtr
  cacheCmdLen : UInt32
  cacheKey : BytePtr
  cacheKeyLen : UInt32
  funcClass : BytePtr
  funcClassLen : UInt32
  funcName : BytePtr
  funcNameLen : UInt32
  funcFile : BytePtr
  funcFileLen : UInt32
  funcLine : UInt32
  requestUri : BytePtr
  requestUriLen : UInt32

/-- The span `memset` leaves. -/
def zeroSpan : LumbreSpan where
  type := 0
  traceId := zeroTraceId
  spanId := 0
  parentId := 0
  startNs := 0
  durationNs := 0
  url := none
  urlLen := 0
  method := none
  methodLen := 0
  statusCode := 0
  query := none
  queryLen := 0
  dbType := none
  dbTypeLen := 0
  rowsAffected := 0
  cacheCmd := none
  cacheCmdLen := 0
  cacheKey := none
  cacheKeyLen := 0
  funcClass := none
  funcClassLen := 0
  funcName := none
  funcNameLen := 0
  funcFile := none
  funcFileLen := 0
  funcLine := 0
  requestUri := none
  requestUriLen := 0

/-- Source: `lumbre_span.h`, `lumbre_context_t` -/
@[ext]
structure LumbreContext where
  traceId : TraceId
  rootSpanId : UInt64
  currentParentId : UInt64
  spanCounter : UInt64
  active : ℤ
  fullTrace : ℤ

/-! ## Context -/

/-- A function that fills a buffer with random bytes, as an action on the buffer. -/
abbrev RandomFunc := TraceId → ℤ × TraceId

/-- Source: `lumbre_span.c`, `lumbre_context_init` -/
def lumbreContextInit (ctx : LumbreContext) (propagatedTraceId : Option TraceId)
    (randomFunc : Option RandomFunc) : LumbreContext where
  traceId :=
    match propagatedTraceId, randomFunc with
    | some id, _ => id
    -- the return value of the generator is not looked at
    | none, some random => (random ctx.traceId).2
    | none, none => zeroTraceId
  spanCounter := 1
  currentParentId := 0
  rootSpanId := 0
  active := 1
  fullTrace := 0

/-- Source: `lumbre_span.c`, `lumbre_context_reset` -/
def lumbreContextReset (ctx : LumbreContext) : LumbreContext :=
  { ctx with active := 0, traceId := zeroTraceId }

/-! ## Start and payload -/

/-- Source: `lumbre_span.c`, `lumbre_span_start` -/
def lumbreSpanStart (type : LumbreSpanTypeT) (ctx : LumbreContext) (clockNs : UInt64) :
    LumbreSpan × LumbreContext :=
  let span :=
    { zeroSpan with
      type := type
      traceId := ctx.traceId
      spanId := ctx.spanCounter
      parentId := ctx.currentParentId
      startNs := clockNs }
  let ctx :=
    { ctx with
      spanCounter := ctx.spanCounter + 1
      -- this span becomes the parent of nested ones
      currentParentId := span.spanId }
  (span, if span.parentId = 0 then { ctx with rootSpanId := span.spanId } else ctx)

/-- Source: `lumbre_span.h`, `lumbre_span_set_db` -/
def lumbreSpanSetDb (span : LumbreSpan) (query : BytePtr) (queryLen : UInt32) (dbType : BytePtr)
    (dbTypeLen rowsAffected maxQueryLen : UInt32) : LumbreSpan :=
  { span with
    query
    queryLen := if queryLen > maxQueryLen then maxQueryLen else queryLen
    dbType
    dbTypeLen
    rowsAffected }

/-- Source: `lumbre_span.h`, `lumbre_span_set_cache` -/
def lumbreSpanSetCache (span : LumbreSpan) (cmd : BytePtr) (cmdLen : UInt32) (key : BytePtr)
    (keyLen : UInt32) : LumbreSpan :=
  { span with cacheCmd := cmd, cacheCmdLen := cmdLen, cacheKey := key, cacheKeyLen := keyLen }

/-- Source: `lumbre_span.h`, `lumbre_span_set_func` -/
def lumbreSpanSetFunc (span : LumbreSpan) (cls : BytePtr) (clsLen : UInt32) (name : BytePtr)
    (nameLen : UInt32) (file : BytePtr) (fileLen line : UInt32) : LumbreSpan :=
  { span with
    funcClass := cls
    funcClassLen := clsLen
    funcName := name
    funcNameLen := nameLen
    funcFile := file
    funcFileLen := fileLen
    funcLine := line }

/-- Source: `lumbre_span.h`, `lumbre_span_set_http_in` -/
def lumbreSpanSetHttpIn (span : LumbreSpan) (uri : BytePtr) (uriLen : UInt32) (method : BytePtr)
    (methodLen : UInt32) : LumbreSpan :=
  { span with requestUri := uri, requestUriLen := uriLen, method, methodLen }

/-- Source: `lumbre_span.h`, `lumbre_span_set_file_io` -/
def lumbreSpanSetFileIo (span : LumbreSpan) (path : BytePtr) (pathLen : UInt32) : LumbreSpan :=
  { span with url := path, urlLen := pathLen }

/-! ## Encoding -/

/-- A pointer to a string literal. -/
def literal (s : String) : BytePtr := some (Mem.ofList (ascii s))

/-- A pointer to the sixteen bytes of a trace id. -/
def TraceId.ptr (id : TraceId) : BytePtr := some (Mem.ofList id.toList)

/-- Source: `lumbre_span.c`, `lumbre_span_field_count` -/
def lumbreSpanFieldCount (type : LumbreSpanTypeT) : UInt32 :=
  if type = lumbreSpanHttpIn then 8
  else if type = lumbreSpanHttpOut then 9
  else if type = lumbreSpanDb then 9
  else if type = lumbreSpanRedis ∨ type = lumbreSpanMemcached then 8
  else if type = lumbreSpanFileIo ∨ type = lumbreSpanSocket then 7
  else if type = lumbreSpanFunc then 10
  else 6

/-- The packer calls for the six fields every span has. -/
def commonCalls (span : LumbreSpan) : List PackCall :=
  [.uintKv (literal "t") 1 span.type.toUInt64,
    .binKv (literal "tid") 3 span.traceId.ptr 16,
    .uintKv (literal "sid") 3 span.spanId,
    .uintKv (literal "pid") 3 span.parentId,
    .uintKv (literal "s") 1 span.startNs,
    .uintKv (literal "d") 1 span.durationNs]

/-- The packer calls for the fields of the type: the `switch` of `lumbre_span_encode`. -/
def typeCalls (span : LumbreSpan) : List PackCall :=
  if span.type = lumbreSpanHttpIn then
    [.strKv (literal "uri") 3 span.requestUri span.requestUriLen,
      .strKv (literal "mth") 3 span.method span.methodLen]
  else if span.type = lumbreSpanHttpOut then
    [.strKv (literal "url") 3 span.url span.urlLen,
      .strKv (literal "mth") 3 span.method span.methodLen,
      .uintKv (literal "st") 2 span.statusCode.toUInt64]
  else if span.type = lumbreSpanDb then
    [.strKv (literal "q") 1 span.query span.queryLen,
      .strKv (literal "dbt") 3 span.dbType span.dbTypeLen,
      .uintKv (literal "r") 1 span.rowsAffected.toUInt64]
  else if span.type = lumbreSpanRedis ∨ span.type = lumbreSpanMemcached then
    [.strKv (literal "cmd") 3 span.cacheCmd span.cacheCmdLen,
      .strKv (literal "k") 1 span.cacheKey span.cacheKeyLen]
  else if span.type = lumbreSpanFileIo ∨ span.type = lumbreSpanSocket then
    [.strKv (literal "url") 3 span.url span.urlLen]
  else if span.type = lumbreSpanFunc then
    [.strKv (literal "cls") 3 span.funcClass span.funcClassLen,
      .strKv (literal "fn") 2 span.funcName span.funcNameLen,
      .strKv (literal "f") 1 span.funcFile span.funcFileLen,
      .uintKv (literal "l") 1 span.funcLine.toUInt64]
  else []

/-- A sequence of `LUMBRE_PACK_OR_FAIL`, and `return 0` behind it. -/
def packOrFail : List PackCall → LumbreMsgpackBuf → ℤ × LumbreMsgpackBuf
  | [], b => (0, b)
  | c :: cs, b => if (c.run b).1 < 0 then (-1, (c.run b).2) else packOrFail cs (c.run b).2

/-- Source: `lumbre_span.c`, `lumbre_span_encode` -/
def lumbreSpanEncode (span : LumbreSpan) (mpBuf : LumbreMsgpackBuf) : ℤ × LumbreMsgpackBuf :=
  packOrFail (.map (lumbreSpanFieldCount span.type) :: commonCalls span ++ typeCalls span) mpBuf

/-! ## Finish -/

/-- The value `lumbre_span_finish` returns, what it leaves in its arguments, and the payload it
handed to `lumbre_ringbuf_write`. -/
structure FinishResult where
  rc : ℤ
  span : LumbreSpan
  rb : LumbreRingbuf
  mpBuf : LumbreMsgpackBuf
  ctx : LumbreContext
  handed : Option (List UInt8)

/-- Source: `lumbre_span.c`, `lumbre_span_finish` -/
def lumbreSpanFinish (span : LumbreSpan) (rb : LumbreRingbuf) (mpBuf : LumbreMsgpackBuf)
    (ctx : LumbreContext) (minDurationNs : UInt64) (maxQueryLen : UInt32) (clockNs : UInt64) :
    FinishResult :=
  let span := { span with durationNs := clockNs - span.startNs }
  if minDurationNs > 0 ∧ span.durationNs < minDurationNs ∧ span.type ≠ lumbreSpanHttpIn then
    { rc := 1, span, rb, mpBuf, ctx := { ctx with currentParentId := span.parentId },
      handed := none }
  else
    -- the parent is restored before anything can fail
    let ctx := { ctx with currentParentId := span.parentId }
    let span :=
      if span.type = lumbreSpanDb ∧ maxQueryLen > 0 ∧ span.queryLen > maxQueryLen then
        { span with queryLen := maxQueryLen }
      else span
    let encoded := lumbreSpanEncode span (lumbreMsgpackReset mpBuf)
    let mpBuf := encoded.2
    if encoded.1 < 0 then
      -- encode overflow
      { rc := -1, span, rb, mpBuf, ctx, handed := none }
    else
      let len := mpBuf.pos.toUInt32
      let written := lumbreRingbufWrite rb mpBuf.buf len
      { rc := written.1, span, rb := written.2, mpBuf, ctx,
        handed := some (mpBuf.buf.load 0 len.toNat) }

end LumbreExt
