import LumbreExt.Lib.OpenAddressing
import LumbreExt.Span.Basic

/-!
# The whitelist of traced functions

Transcription of `lumbre_whitelist.h` and `lumbre_whitelist.c`.

* A `size_t` length of a name is a natural number: both names lie in one address space, so the sum in
  the length guard of `lumbre_wl_build_key` does not wrap.
* `lumbreWlBuildKey` — the bytes it writes; the return value `0` is the empty key.
* `lumbreWhitelistInit`, `lumbreWhitelistMatch` — their probe loops are `Lib.loop`s with fuel, so the
  outer `Option` of a result says whether the fuel was enough. `init` takes the static table as an
  argument; `lumbreWlStaticTable` is the one of the source.
-/

namespace LumbreExt

open Lib

/-- `LUMBRE_WL_KEY_BUF_SIZE`. -/
def lumbreWlKeyBufSize : ℕ := 128

/-- `LUMBRE_WHITELIST_SIZE`. -/
def lumbreWhitelistSize : ℕ := 64

/-- `LUMBRE_WHITELIST_MASK`. -/
def lumbreWhitelistMask : UInt32 := 63

/-! ## Keys -/

/-- Source: `lumbre_whitelist.c`, `lumbre_fnv1a` -/
def lumbreFnv1a (data : List UInt8) : UInt32 :=
  data.foldl (fun hash b => (hash ^^^ b.toUInt32) * 0x01000193) 0x811c9dc5

/-- The case folding of the key builder. -/
def lowerAscii (c : UInt8) : UInt8 :=
  if 0x41 ≤ c ∧ c ≤ 0x5A then c ||| 0x20 else c

/-- Source: `lumbre_whitelist.c`, `lumbre_wl_build_key` -/
def lumbreWlBuildKey (className : BytePtr) (classLen : ℕ) (funcName : BytePtr) (funcLen : ℕ) :
    List UInt8 :=
  let func := (funcName.read funcLen).map lowerAscii
  if className ≠ none ∧ classLen > 0 then
    if classLen + 2 + funcLen ≥ lumbreWlKeyBufSize then []
    else (className.read classLen).map lowerAscii ++ ascii "::" ++ func
  else if funcLen ≥ lumbreWlKeyBufSize then []
  else func

/-! ## Tables -/

/-- Source: `lumbre_whitelist.c`, `lumbre_wl_static_entry_t` -/
structure LumbreWlStaticEntry where
  className : BytePtr
  classLen : UInt8
  funcName : BytePtr
  funcLen : UInt8
  spanType : UInt8

/-- Source: `lumbre_whitelist.c`, `lumbre_wl_static_table` -/
def lumbreWlStaticTable : List LumbreWlStaticEntry :=
  [⟨none, 0, literal "curl_exec", 9, lumbreSpanHttpOut⟩,
    ⟨none, 0, literal "curl_multi_exec", 15, lumbreSpanHttpOut⟩,
    ⟨literal "PDO", 3, literal "execute", 7, lumbreSpanDb⟩,
    ⟨literal "PDO", 3, literal "query", 5, lumbreSpanDb⟩,
    ⟨none, 0, literal "mysqli_query", 12, lumbreSpanDb⟩,
    ⟨none, 0, literal "mysqli_real_query", 17, lumbreSpanDb⟩,
    ⟨none, 0, literal "pg_query", 8, lumbreSpanDb⟩,
    ⟨none, 0, literal "pg_execute", 10, lumbreSpanDb⟩,
    ⟨literal "Redis", 5, literal "get", 3, lumbreSpanRedis⟩,
    ⟨literal "Redis", 5, literal "set", 3, lumbreSpanRedis⟩,
    ⟨literal "Redis", 5, literal "mget", 4, lumbreSpanRedis⟩,
    ⟨literal "Redis", 5, literal "pipeline", 8, lumbreSpanRedis⟩,
    ⟨literal "Memcached", 9, literal "get", 3, lumbreSpanMemcached⟩,
    ⟨literal "Memcached", 9, literal "set", 3, lumbreSpanMemcached⟩,
    ⟨literal "Memcached", 9, literal "getMulti", 8, lumbreSpanMemcached⟩,
    ⟨none, 0, literal "file_get_contents", 17, lumbreSpanFileIo⟩,
    ⟨none, 0, literal "file_put_contents", 17, lumbreSpanFileIo⟩,
    ⟨none, 0, literal "fopen", 5, lumbreSpanFileIo⟩,
    ⟨none, 0, literal "fwrite", 6, lumbreSpanFileIo⟩,
    ⟨none, 0, literal "fread", 5, lumbreSpanFileIo⟩,
    ⟨none, 0, literal "fsockopen", 9, lumbreSpanSocket⟩,
    ⟨none, 0, literal "stream_socket_client", 20, lumbreSpanSocket⟩]

/-- Source: `lumbre_whitelist.h`, `lumbre_whitelist_entry_t` -/
structure LumbreWhitelistEntry where
  className : BytePtr
  classLen : UInt8
  funcName : BytePtr
  funcLen : UInt8
  spanType : UInt8
  keyHash : UInt32
  occupied : ℤ

/-- The entry `memset` leaves. -/
def zeroWhitelistEntry : LumbreWhitelistEntry where
  className := none
  classLen := 0
  funcName := none
  funcLen := 0
  spanType := 0
  keyHash := 0
  occupied := 0

/-- Source: `lumbre_whitelist.h`, `lumbre_whitelist_t` -/
structure LumbreWhitelist where
  entries : Fin lumbreWhitelistSize → LumbreWhitelistEntry

/-- The table `memset` leaves. -/
def zeroWhitelist : LumbreWhitelist := ⟨fun _ => zeroWhitelistEntry⟩

/-- The array index a slot number below `LUMBRE_WHITELIST_SIZE` is. -/
def slotIndex (slot : UInt32) : Fin lumbreWhitelistSize :=
  ⟨slot.toNat % lumbreWhitelistSize, Nat.mod_lt _ (by decide)⟩

/-- `wl->entries[slot]`. -/
def LumbreWhitelist.entry (wl : LumbreWhitelist) (slot : UInt32) : LumbreWhitelistEntry :=
  wl.entries (slotIndex slot)

/-- `(slot + 1) & LUMBRE_WHITELIST_MASK`. -/
def nextSlot (slot : UInt32) : UInt32 := (slot + 1) &&& lumbreWhitelistMask

/-! ## Building and looking up -/

/-- The canonical key of a row. -/
def LumbreWlStaticEntry.key (src : LumbreWlStaticEntry) : List UInt8 :=
  lumbreWlBuildKey src.className src.classLen.toNat src.funcName src.funcLen.toNat

/-- The canonical key of an entry. -/
def LumbreWhitelistEntry.key (e : LumbreWhitelistEntry) : List UInt8 :=
  lumbreWlBuildKey e.className e.classLen.toNat e.funcName e.funcLen.toNat

/-- The entry that is stored for a row. -/
def LumbreWlStaticEntry.entry (src : LumbreWlStaticEntry) (hash : UInt32) :
    LumbreWhitelistEntry where
  className := src.className
  classLen := src.classLen
  funcName := src.funcName
  funcLen := src.funcLen
  spanType := src.spanType
  keyHash := hash
  occupied := 1

/-- The body of the loop over the static table. -/
def lumbreWhitelistInsert (fuel : ℕ) (wl : LumbreWhitelist) (src : LumbreWlStaticEntry) :
    Option LumbreWhitelist :=
  let key := src.key
  if key.length = 0 then some wl
  else
    let hash := lumbreFnv1a key
    let stop := fun slot => if (wl.entry slot).occupied ≠ 0 then none else some slot
    (loop nextSlot stop fuel (hash &&& lumbreWhitelistMask)).map fun slot =>
      { entries := Function.update wl.entries (slotIndex slot) (src.entry hash) }

/-- Source: `lumbre_whitelist.c`, `lumbre_whitelist_init` -/
def lumbreWhitelistInit (fuel : ℕ) (table : List LumbreWlStaticEntry) : Option LumbreWhitelist :=
  table.foldlM (lumbreWhitelistInsert fuel) zeroWhitelist

/-- The test of `lumbre_whitelist_match` on an occupied entry: equal hashes, and then the key of the
entry is rebuilt and compared. -/
def LumbreWhitelistEntry.isHit (key : List UInt8) (e : LumbreWhitelistEntry) : Bool :=
  e.keyHash == lumbreFnv1a key && (e.key.length == key.length && e.key == key)

/-- The probe loop of `lumbre_whitelist_match` for a key that is not empty. -/
def lumbreWhitelistProbe (fuel : ℕ) (wl : LumbreWhitelist) (key : List UInt8) :
    Option (Option LumbreWhitelistEntry) :=
  let stop := fun slot =>
    if (wl.entry slot).occupied = 0 then some none
    else if (wl.entry slot).isHit key then some (some (wl.entry slot))
    else none
  loop nextSlot stop fuel (lumbreFnv1a key &&& lumbreWhitelistMask)

/-- The result is the entry pointed to; the inner `none` is `NULL`.
Source: `lumbre_whitelist.c`, `lumbre_whitelist_match` -/
def lumbreWhitelistMatch (fuel : ℕ) (wl : LumbreWhitelist) (className : BytePtr) (classLen : ℕ)
    (funcName : BytePtr) (funcLen : ℕ) : Option (Option LumbreWhitelistEntry) :=
  let key := lumbreWlBuildKey className classLen funcName funcLen
  if key.length = 0 then some none else lumbreWhitelistProbe fuel wl key

/-- Source: `lumbre_whitelist.c`, `lumbre_whitelist_destroy` -/
def lumbreWhitelistDestroy (_wl : LumbreWhitelist) : LumbreWhitelist := zeroWhitelist

end LumbreExt
