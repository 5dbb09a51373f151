import LumbreExt.Lib.Bytes

/-!
# The MessagePack packer

Transcription of `lumbre_msgpack.h` and `lumbre_msgpack.c`. `size_t` is `UInt64`; the size
expressions `1 + len`, `3 + len`, `5 + len`, `2 + len` of the source are computed in `uint32_t`, as
C computes them, before they are added to `pos`.

* `LumbreMsgpackBuf` — the buffer, with a record of the byte stores performed on it, which the
  source does not have. `buf` is total, so a store behind `capacity` shows in that record.
* `BytePtr` — a `const char *` or `const void *` argument: `NULL`, or the memory it points to.
* `lumbreMsgpackCheckSpace` — the macro that every packer starts with; what stands behind the macro
  is its last argument.
-/

namespace LumbreExt

open Lib

/-- A pointer to bytes that are read only; `none` is `NULL`. -/
abbrev BytePtr := Option Mem

/-- The `n` bytes a pointer points to; `NULL` is never read through. -/
def BytePtr.read (ptr : BytePtr) (n : ℕ) : List UInt8 :=
  match ptr with
  | none => []
  | some m => m.load 0 n

/-- Source: `lumbre_msgpack.h`, `lumbre_msgpack_buf` -/
@[ext]
structure LumbreMsgpackBuf where
  buf : Mem
  capacity : UInt64
  pos : UInt64
  /-- The byte stores performed so far, the first one first. -/
  stores : List (ℕ × UInt8)

namespace LumbreMsgpackBuf

/-- Stores bytes at `buf + pos` and advances `pos` past them: `buf->buf[buf->pos++] = b`, or a
`memcpy` to `buf->buf + buf->pos` with the `buf->pos += n` behind it. -/
def put (b : LumbreMsgpackBuf) (bs : List UInt8) : LumbreMsgpackBuf where
  buf := b.buf.storeAll (copyStores b.pos.toNat bs)
  capacity := b.capacity
  pos := b.pos + UInt64.ofNat bs.length
  stores := b.stores ++ copyStores b.pos.toNat bs

/-- The tail of the string and binary packers: the content, unless it is empty or `NULL`. -/
def putContent (b : LumbreMsgpackBuf) (ptr : BytePtr) (len : UInt32) : LumbreMsgpackBuf :=
  match ptr with
  | none => b
  | some m => if len > 0 then b.put (m.load 0 len.toNat) else b

end LumbreMsgpackBuf

/-- The two bytes `lumbre_store16` stores: the byte-swapped number, little-endian.
Source: `lumbre_msgpack.c`, `lumbre_store16` -/
def lumbreStore16 (val : UInt16) : List UInt8 := (leBytes 2 val.toNat).reverse

/-- Source: `lumbre_msgpack.c`, `lumbre_store32` -/
def lumbreStore32 (val : UInt32) : List UInt8 := (leBytes 4 val.toNat).reverse

/-- Source: `lumbre_msgpack.c`, `lumbre_store64` -/
def lumbreStore64 (val : UInt64) : List UInt8 := (leBytes 8 val.toNat).reverse

/-- `LUMBRE_MSGPACK_CHECK_SPACE(buf, n)`, then the stores that lead from `b` to `b'`, and
`return 0`. -/
def lumbreMsgpackCheckSpace (b : LumbreMsgpackBuf) (n : UInt64) (b' : LumbreMsgpackBuf) :
    ℤ × LumbreMsgpackBuf :=
  if b.pos + n > b.capacity then (-1, b) else (0, b')

/-- Source: `lumbre_msgpack.c`, `lumbre_msgpack_reset` -/
def lumbreMsgpackReset (b : LumbreMsgpackBuf) : LumbreMsgpackBuf := { b with pos := 0 }

/-- Source: `lumbre_msgpack.c`, `lumbre_msgpack_pack_map` -/
def lumbreMsgpackPackMap (b : LumbreMsgpackBuf) (count : UInt32) : ℤ × LumbreMsgpackBuf :=
  if count ≤ 15 then
    lumbreMsgpackCheckSpace b 1 (b.put [(0x80 ||| count).toUInt8])
  else
    lumbreMsgpackCheckSpace b 3 ((b.put [0xde]).put (lumbreStore16 count.toUInt16))

/-- Source: `lumbre_msgpack.c`, `lumbre_msgpack_pack_uint` -/
def lumbreMsgpackPackUint (b : LumbreMsgpackBuf) (val : UInt64) : ℤ × LumbreMsgpackBuf :=
  if val < 128 then
    lumbreMsgpackCheckSpace b 1 (b.put [val.toUInt8])
  else if val ≤ 0xFF then
    lumbreMsgpackCheckSpace b 2 ((b.put [0xcc]).put [val.toUInt8])
  else if val ≤ 0xFFFF then
    lumbreMsgpackCheckSpace b 3 ((b.put [0xcd]).put (lumbreStore16 val.toUInt16))
  else if val ≤ 0xFFFFFFFF then
    lumbreMsgpackCheckSpace b 5 ((b.put [0xce]).put (lumbreStore32 val.toUInt32))
  else
    lumbreMsgpackCheckSpace b 9 ((b.put [0xcf]).put (lumbreStore64 val))

/-- Source: `lumbre_msgpack.c`, `lumbre_msgpack_pack_str` -/
def lumbreMsgpackPackStr (b : LumbreMsgpackBuf) (str : BytePtr) (len : UInt32) :
    ℤ × LumbreMsgpackBuf :=
  if len < 32 then
    lumbreMsgpackCheckSpace b (1 + len).toUInt64
      ((b.put [(0xa0 ||| len).toUInt8]).putContent str len)
  else if len ≤ 0xFFFF then
    lumbreMsgpackCheckSpace b (3 + len).toUInt64
      (((b.put [0xda]).put (lumbreStore16 len.toUInt16)).putContent str len)
  else
    lumbreMsgpackCheckSpace b (5 + len).toUInt64
      (((b.put [0xdb]).put (lumbreStore32 len)).putContent str len)

/-- Source: `lumbre_msgpack.c`, `lumbre_msgpack_pack_bin` -/
def lumbreMsgpackPackBin (b : LumbreMsgpackBuf) (data : BytePtr) (len : UInt32) :
    ℤ × LumbreMsgpackBuf :=
  if len ≤ 0xFF then
    lumbreMsgpackCheckSpace b (2 + len).toUInt64
      (((b.put [0xc4]).put [len.toUInt8]).putContent data len)
  else if len ≤ 0xFFFF then
    lumbreMsgpackCheckSpace b (3 + len).toUInt64
      (((b.put [0xc5]).put (lumbreStore16 len.toUInt16)).putContent data len)
  else
    -- longer binary data is outside the subset
    (-1, b)

/-- Source: `lumbre_msgpack.c`, `lumbre_msgpack_pack_str_kv` -/
def lumbreMsgpackPackStrKv (b : LumbreMsgpackBuf) (key : BytePtr) (keyLen : UInt32)
    (val : BytePtr) (valLen : UInt32) : ℤ × LumbreMsgpackBuf :=
  let r := lumbreMsgpackPackStr b key keyLen
  if r.1 ≠ 0 then r else lumbreMsgpackPackStr r.2 val valLen

/-- Source: `lumbre_msgpack.c`, `lumbre_msgpack_pack_uint_kv` -/
def lumbreMsgpackPackUintKv (b : LumbreMsgpackBuf) (key : BytePtr) (keyLen : UInt32)
    (val : UInt64) : ℤ × LumbreMsgpackBuf :=
  let r := lumbreMsgpackPackStr b key keyLen
  if r.1 ≠ 0 then r else lumbreMsgpackPackUint r.2 val

/-- Source: `lumbre_msgpack.c`, `lumbre_msgpack_pack_bin_kv` -/
def lumbreMsgpackPackBinKv (b : LumbreMsgpackBuf) (key : BytePtr) (keyLen : UInt32)
    (data : BytePtr) (dataLen : UInt32) : ℤ × LumbreMsgpackBuf :=
  let r := lumbreMsgpackPackStr b key keyLen
  if r.1 ≠ 0 then r else lumbreMsgpackPackBin r.2 data dataLen

end LumbreExt
