import LumbreExt.Lib.Bytes

/-!
# The ring buffer: header, handle, `init` and `write`

Transcription of `lumbre_ringbuf.h` and `lumbre_ringbuf.c`. C's `uint32_t`, `uint64_t` are
`UInt32`, `UInt64` with their wrapping arithmetic; a cast is written where C promotes.

* `lumbreRingbufInit` — the system calls of `lumbre_ringbuf_init` are answered by an `InitAnswers`
  and act on the `OsResources` the process holds.
* `lumbreRingbufWriteOps` — the body of `lumbre_ringbuf_write` after its one load of
  `header->read_pos`: the return value together with the memory accesses it performs, in program
  order and one byte at a time. `lumbreRingbufWrite` performs them all at once, which is what a
  caller on the producer's own thread sees; the concurrent system places the consumer in between.

`rb->data` is a `Mem`: the bytes from `rb->data` on, so an index `≥ capacity` is a byte behind the
ring. `memcpy` of a `uint32_t` is little-endian, as on the hosts the extension is built for.
-/

namespace LumbreExt

open Lib

/-! ## Constants -/

/-- `LUMBRE_RINGBUF_MAGIC`. -/
def lumbreRingbufMagic : UInt32 := 0x54524143

/-- `LUMBRE_RINGBUF_VERSION`. -/
def lumbreRingbufVersion : UInt32 := 1

/-- `LUMBRE_RINGBUF_HEADER_SIZE`. -/
def lumbreRingbufHeaderSize : UInt32 := 64

/-- `LUMBRE_RINGBUF_PADDING_MARKER`. -/
def lumbreRingbufPaddingMarker : UInt32 := 0xFFFFFFFF

/-- `LUMBRE_IS_POWER_OF_TWO`. -/
def lumbreIsPowerOfTwo (n : UInt32) : Bool :=
  n != 0 && (n &&& (n - 1)) == 0

/-- The ASCII bytes of a string literal. -/
def ascii (s : String) : List UInt8 :=
  s.toList.map fun c => UInt8.ofNat c.toNat

/-- The bytes of a `uint32_t` in memory. -/
def le32 (v : UInt32) : List UInt8 :=
  leBytes 4 v.toNat

/-! ## Header and handle -/

/-- The header at the start of the mapping, shared with the daemon.
Source: `lumbre_ringbuf.h`, `lumbre_ringbuf_header_t` -/
structure LumbreRingbufHeader where
  magic : UInt32
  version : UInt32
  capacity : UInt32
  writePos : UInt64
  readPos : UInt64
  dropped : UInt64
  pid : UInt32
  workerId : UInt64

/-- The producer's handle on an open ring; `header` and `data` are the memory they point to. A
handle whose `header` is `NULL` is the `none` of `Option LumbreRingbuf`.
Source: `lumbre_ringbuf.h`, `lumbre_ringbuf_t` -/
structure LumbreRingbuf where
  header : LumbreRingbufHeader
  data : Mem
  capacity : UInt32
  mask : UInt32
  localWritePos : UInt64
  fd : ℤ
  mmapSize : UInt64
  path : List UInt8
  workerId : UInt64

/-! ## Initialisation -/

/-- Source: `lumbre_ringbuf.c`, `lumbre_next_power_of_2` -/
def lumbreNextPowerOf2 (v : UInt32) : UInt32 :=
  if v = 0 then 1
  else if lumbreIsPowerOfTwo v then v
  else
    let v := v - 1
    let v := v ||| (v >>> 1)
    let v := v ||| (v >>> 2)
    let v := v ||| (v >>> 4)
    let v := v ||| (v >>> 8)
    let v := v ||| (v >>> 16)
    v + 1

/-- The answers of the operating system to one `lumbre_ringbuf_init`. -/
structure InitAnswers where
  /-- The descriptor `open` returns, `none` when it fails. -/
  fd : Option ℤ
  /-- Whether `ftruncate` succeeds. -/
  ftruncateOk : Bool
  /-- Whether `mmap` succeeds. -/
  mmapOk : Bool

/-- What the process holds of the operating system on behalf of its rings. -/
structure OsResources where
  /-- Number of open descriptors. -/
  openFds : ℕ
  /-- Number of live mappings. -/
  mappings : ℕ
  /-- Shared-memory files that exist. -/
  files : List (List UInt8)

/-- `"<shm_dir>/lumbre_<pid>_<worker_id>"`, as `snprintf` formats it. -/
def ringPath (shmDir : List UInt8) (pid : UInt32) (workerId : UInt64) : List UInt8 :=
  shmDir ++ ascii "/lumbre_" ++ ascii (toString pid.toNat) ++ ascii "_" ++
    ascii (toString workerId.toNat)

/-- `sizeof(rb->path)`. -/
def ringPathSize : ℕ := 256

/-- The handle and header `lumbre_ringbuf_init` fills once the mapping exists; `capacity` is
already rounded. -/
def openRing (fd : ℤ) (path : List UInt8) (pid : UInt32) (workerId : UInt64)
    (capacity : UInt32) : LumbreRingbuf where
  header :=
    { magic := lumbreRingbufMagic
      version := lumbreRingbufVersion
      capacity := capacity
      writePos := 0
      readPos := 0
      dropped := 0
      pid := pid
      workerId := workerId }
  data := fun _ => 0
  capacity := capacity
  mask := capacity - 1
  localWritePos := 0
  fd := fd
  mmapSize := lumbreRingbufHeaderSize.toUInt64 + capacity.toUInt64
  path := path
  workerId := workerId

/-- The result `none` is the return value `-1`.
Source: `lumbre_ringbuf.c`, `lumbre_ringbuf_init` -/
def lumbreRingbufInit (ans : InitAnswers) (os : OsResources) (shmDir : List UInt8) (pid : UInt32)
    (workerId : UInt64) (capacity : UInt32) : OsResources × Option LumbreRingbuf :=
  let capacity := lumbreNextPowerOf2 capacity
  let path := ringPath shmDir pid workerId
  if ringPathSize ≤ path.length then (os, none)
  else
    match ans.fd with
    | none => (os, none)
    | some fd =>
        let os := { os with openFds := os.openFds + 1, files := path :: os.files.erase path }
        -- both failures close the descriptor and unlink the file
        if !ans.ftruncateOk || !ans.mmapOk then
          ({ os with openFds := os.openFds - 1, files := os.files.erase path }, none)
        else
          ({ os with mappings := os.mappings + 1 }, some (openRing fd path pid workerId capacity))

/-! ## Writing -/

/-- A memory access of the producer, loads of its own handle excepted. -/
inductive WriteOp
  /-- `__atomic_fetch_add(&rb->header->dropped, 1)`. -/
  | fetchAddDropped
  /-- One byte of a `memcpy` into `rb->data`. -/
  | storeData (s : ℕ × UInt8)
  /-- `rb->local_write_pos += n`. -/
  | addLocalWritePos (n : UInt64)
  /-- `__atomic_store_n(&rb->header->write_pos, rb->local_write_pos)`. -/
  | storeWritePos
  deriving DecidableEq

/-- The effect of one access. -/
def LumbreRingbuf.exec (rb : LumbreRingbuf) : WriteOp → LumbreRingbuf
  | .fetchAddDropped => { rb with header.dropped := rb.header.dropped + 1 }
  | .storeData s => { rb with data := rb.data.store s }
  | .addLocalWritePos n => { rb with localWritePos := rb.localWritePos + n }
  | .storeWritePos => { rb with header.writePos := rb.localWritePos }

/-- The effect of a sequence of accesses. -/
def LumbreRingbuf.execAll (rb : LumbreRingbuf) (ops : List WriteOp) : LumbreRingbuf :=
  ops.foldl LumbreRingbuf.exec rb

/-- `memcpy(&rb->data[offset], bs, len)`. -/
def memcpyData (offset : UInt32) (bs : List UInt8) : List WriteOp :=
  (copyStores offset.toNat bs).map .storeData

/-- `lumbre_ringbuf_write` after its load of `header->read_pos`, which saw `readPos`: the value it
returns and the accesses it performs.
Source: `lumbre_ringbuf.c`, `lumbre_ringbuf_write` -/
def lumbreRingbufWriteOps (rb : LumbreRingbuf) (readPos : UInt64) (payload : Mem)
    (payloadLen : UInt32) : ℤ × List WriteOp :=
  if payloadLen > rb.capacity - 4 then (-1, [.fetchAddDropped])
  else
    let needed : UInt32 := 4 + payloadLen
    if (rb.localWritePos - readPos) + needed.toUInt64 > rb.capacity.toUInt64 then
      (-1, [.fetchAddDropped])
    else
      let offset := (rb.localWritePos &&& rb.mask.toUInt64).toUInt32
      let message := fun (offset : UInt32) =>
        memcpyData offset (le32 payloadLen) ++
          (if payloadLen > 0 then memcpyData (offset + 4) (payload.load 0 payloadLen.toNat)
            else []) ++
          [.addLocalWritePos needed.toUInt64, .storeWritePos]
      if offset + needed > rb.capacity then
        let padBytes := rb.capacity - offset
        if (rb.localWritePos - readPos) + padBytes.toUInt64 + needed.toUInt64 >
            rb.capacity.toUInt64 then
          (-1, [.fetchAddDropped])
        else
          (0, memcpyData offset (le32 lumbreRingbufPaddingMarker) ++
            [.addLocalWritePos padBytes.toUInt64] ++ message 0)
      else (0, message offset)

/-- `lumbre_ringbuf_write` without interference: the call reads the published `read_pos` and
performs all its accesses.
Source: `lumbre_ringbuf.c`, `lumbre_ringbuf_write` -/
def lumbreRingbufWrite (rb : LumbreRingbuf) (payload : Mem) (payloadLen : UInt32) :
    ℤ × LumbreRingbuf :=
  let w := lumbreRingbufWriteOps rb rb.header.readPos payload payloadLen
  (w.1, rb.execAll w.2)

/-! ## Destruction -/

/-- Source: `lumbre_ringbuf.c`, `lumbre_ringbuf_destroy` -/
def lumbreRingbufDestroy (os : OsResources) (rb : Option LumbreRingbuf) (skipUnlink : Bool) :
    OsResources × Option LumbreRingbuf :=
  match rb with
  | none => (os, none)
  | some rb =>
      let os := { os with mappings := os.mappings - 1, openFds := os.openFds - 1 }
      (if skipUnlink then os else { os with files := os.files.erase rb.path }, none)

end LumbreExt
