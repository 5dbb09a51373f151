import LumbreExt.Lib.Bytes
import Mathlib.Algebra.Ring.Int.Defs
import Mathlib.Data.List.Forall2

/-!
# A MessagePack reader

The whole format, as its specification lays it out, read from a list of bytes. It has no knowledge
of any program that writes it.

* `Scalar`, `Token`, `Value` — an object without parts; a token of the stream (a scalar, or the
  header of an array or a map with its announced length); a decoded object.
* `header` — what the first byte of a token announces. The specification's table of formats is this
  one function, so a fact about a format is `header b = …`, which holds by `rfl`.
* `readToken` — reads one token; `readToken_immediate` … `readToken_sized` are its rules, one for
  each shape of header.
* `decode`, `decodeAll` — reads one object; `decodeAll` accepts only when every byte is consumed.
  The fuel of `decode` bounds the nesting depth and `decodeAll` gives it the number of bytes.
-/

namespace LumbreExt.Lib.MsgPack

/-- An object without parts. -/
inductive Scalar
  | nil
  | bool (b : Bool)
  | int (i : ℤ)
  | float32 (bits : ℕ)
  | float64 (bits : ℕ)
  | str (bytes : List UInt8)
  | bin (bytes : List UInt8)
  | ext (type : UInt8) (bytes : List UInt8)
  deriving DecidableEq

/-- One token of the stream. -/
inductive Token
  | scalar (s : Scalar)
  | array (n : ℕ)
  | map (n : ℕ)
  deriving DecidableEq

/-- A decoded object. -/
inductive Value
  | scalar (s : Scalar)
  | array (items : List Value)
  | map (entries : List (Value × Value))

/-! ## Headers -/

/-- What the first byte of a token announces about the bytes behind it. -/
inductive Header
  /-- The byte is the whole token. -/
  | immediate (t : Token)
  /-- A big-endian number of `width` bytes. -/
  | number (width : ℕ) (mk : ℕ → Token)
  /-- `n` bytes of content. -/
  | content (n : ℕ) (mk : List UInt8 → Token)
  /-- A big-endian length of `width` bytes, then that many bytes of content and `extra` more. -/
  | sized (width extra : ℕ) (mk : List UInt8 → Token)
  /-- The byte `0xc1`, which the specification never uses. -/
  | reserved

/-- The two's complement reading of a `width`-byte number. -/
def signed (width v : ℕ) : ℤ :=
  if 2 * v < 256 ^ width then v else v - 256 ^ width

def intToken (v : ℕ) : Token := .scalar (.int v)

def signedToken (width v : ℕ) : Token := .scalar (.int (signed width v))

def strToken (bs : List UInt8) : Token := .scalar (.str bs)

def binToken (bs : List UInt8) : Token := .scalar (.bin bs)

/-- The content of an extension is its type byte and its data. -/
def extToken : List UInt8 → Token
  | [] => .scalar (.ext 0 [])
  | t :: bs => .scalar (.ext t bs)

/-- The table of formats. -/
def header (b : UInt8) : Header :=
  let n := b.toNat
  if n < 0x80 then .immediate (intToken n)
  else if n < 0x90 then .immediate (.map (n - 0x80))
  else if n < 0xa0 then .immediate (.array (n - 0x90))
  else if n < 0xc0 then .content (n - 0xa0) strToken
  else if 0xe0 ≤ n then .immediate (signedToken 1 n)
  else
    match b with
    | 0xc0 => .immediate (.scalar .nil)
    | 0xc2 => .immediate (.scalar (.bool false))
    | 0xc3 => .immediate (.scalar (.bool true))
    | 0xc4 => .sized 1 0 binToken
    | 0xc5 => .sized 2 0 binToken
    | 0xc6 => .sized 4 0 binToken
    | 0xc7 => .sized 1 1 extToken
    | 0xc8 => .sized 2 1 extToken
    | 0xc9 => .sized 4 1 extToken
    | 0xca => .number 4 fun v => .scalar (.float32 v)
    | 0xcb => .number 8 fun v => .scalar (.float64 v)
    | 0xcc => .number 1 intToken
    | 0xcd => .number 2 intToken
    | 0xce => .number 4 intToken
    | 0xcf => .number 8 intToken
    | 0xd0 => .number 1 (signedToken 1)
    | 0xd1 => .number 2 (signedToken 2)
    | 0xd2 => .number 4 (signedToken 4)
    | 0xd3 => .number 8 (signedToken 8)
    | 0xd4 => .content 2 extToken
    | 0xd5 => .content 3 extToken
    | 0xd6 => .content 5 extToken
    | 0xd7 => .content 9 extToken
    | 0xd8 => .content 17 extToken
    | 0xd9 => .sized 1 0 strToken
    | 0xda => .sized 2 0 strToken
    | 0xdb => .sized 4 0 strToken
    | 0xdc => .number 2 .array
    | 0xdd => .number 4 .array
    | 0xde => .number 2 .map
    | 0xdf => .number 4 .map
    | _ => .reserved

/-- A positive fixint is its own header. -/
lemma header_fixint {b : UInt8} (h : b.toNat < 0x80) :
    header b = .immediate (intToken b.toNat) := by
  unfold header
  simp only [if_pos h]

lemma header_fixmap {b : UInt8} (hlo : 0x80 ≤ b.toNat) (hhi : b.toNat < 0x90) :
    header b = .immediate (.map (b.toNat - 0x80)) := by
  have hnot : ¬ b.toNat < 0x80 := by omega
  unfold header
  simp only [if_neg hnot, if_pos hhi]

lemma header_fixstr {b : UInt8} (hlo : 0xa0 ≤ b.toNat) (hhi : b.toNat < 0xc0) :
    header b = .content (b.toNat - 0xa0) strToken := by
  have h₁ : ¬ b.toNat < 0x80 := by omega
  have h₂ : ¬ b.toNat < 0x90 := by omega
  have h₃ : ¬ b.toNat < 0xa0 := by omega
  unfold header
  simp only [if_neg h₁, if_neg h₂, if_neg h₃, if_pos hhi]

/-! ## Tokens -/

/-- The first `n` bytes and the rest, when there are that many. -/
def takeBytes (n : ℕ) (bs : List UInt8) : Option (List UInt8 × List UInt8) :=
  if n ≤ bs.length then some (bs.take n, bs.drop n) else none

/-- Reads one token; `none` when the bytes end inside it or its header is reserved. -/
def readToken : List UInt8 → Option (Token × List UInt8)
  | [] => none
  | b :: bs =>
      match header b with
      | .immediate t => some (t, bs)
      | .number width mk => (takeBytes width bs).map fun p => (mk (ofBeBytes p.1), p.2)
      | .content n mk => (takeBytes n bs).map fun p => (mk p.1, p.2)
      | .sized width extra mk =>
          (takeBytes width bs).bind fun p =>
            (takeBytes (ofBeBytes p.1 + extra) p.2).map fun q => (mk q.1, q.2)
      | .reserved => none

lemma takeBytes_append {n : ℕ} {bs : List UInt8} (rest : List UInt8) (hn : bs.length = n) :
    takeBytes n (bs ++ rest) = some (bs, rest) := by
  subst hn
  have hle : bs.length ≤ (bs ++ rest).length := by
    rw [List.length_append]
    exact Nat.le_add_right _ _
  rw [takeBytes, if_pos hle, List.take_left, List.drop_left]

section rules

variable {b : UInt8} {rest : List UInt8}

lemma readToken_immediate {t : Token} (h : header b = .immediate t) :
    readToken (b :: rest) = some (t, rest) := by
  simp only [readToken, h]

lemma readToken_number {width v : ℕ} {mk : ℕ → Token} (h : header b = .number width mk)
    (hv : v < 256 ^ width) :
    readToken (b :: (beBytes width v ++ rest)) = some (mk v, rest) := by
  simp only [readToken, h, takeBytes_append rest (beBytes_length width v), Option.map_some,
    ofBeBytes_beBytes_of_lt hv]

lemma readToken_content {n : ℕ} {mk : List UInt8 → Token} {bs : List UInt8}
    (h : header b = .content n mk) (hn : bs.length = n) :
    readToken (b :: (bs ++ rest)) = some (mk bs, rest) := by
  simp only [readToken, h, takeBytes_append rest hn, Option.map_some]

lemma readToken_sized {width : ℕ} {mk : List UInt8 → Token} {bs : List UInt8}
    (h : header b = .sized width 0 mk) (hlen : bs.length < 256 ^ width) :
    readToken (b :: (beBytes width bs.length ++ (bs ++ rest))) = some (mk bs, rest) := by
  simp only [readToken, h, takeBytes_append (bs ++ rest) (beBytes_length width bs.length),
    Option.bind_some, ofBeBytes_beBytes_of_lt hlen, Nat.add_zero, takeBytes_append rest rfl,
    Option.map_some]

end rules

/-! ## Objects -/

/-- Reads `n` things in a row. -/
def decodeMany {α : Type} (dec : List UInt8 → Option (α × List UInt8)) :
    ℕ → List UInt8 → Option (List α × List UInt8)
  | 0, bs => some ([], bs)
  | n + 1, bs =>
      (dec bs).bind fun p => (decodeMany dec n p.2).map fun q => (p.1 :: q.1, q.2)

/-- Reads a key and a value. -/
def decodePair (dec : List UInt8 → Option (Value × List UInt8)) (bs : List UInt8) :
    Option ((Value × Value) × List UInt8) :=
  (dec bs).bind fun p => (dec p.2).map fun q => ((p.1, q.1), q.2)

/-- Reads one object nested at most `fuel` deep. -/
def decode : ℕ → List UInt8 → Option (Value × List UInt8)
  | 0, _ => none
  | fuel + 1, bs =>
      (readToken bs).bind fun p =>
        match p.1 with
        | .scalar s => some (.scalar s, p.2)
        | .array n => (decodeMany (decode fuel) n p.2).map fun q => (.array q.1, q.2)
        | .map n => (decodeMany (decodePair (decode fuel)) n p.2).map fun q => (.map q.1, q.2)

/-- Reads one object that takes up all the bytes. -/
def decodeAll (bs : List UInt8) : Option Value :=
  match decode bs.length bs with
  | some (v, []) => some v
  | _ => none

/-- `bs` is a representation of the scalar `s`: in front of anything, the reader yields `s`. -/
def Represents (bs : List UInt8) (s : Scalar) : Prop :=
  ∀ rest, readToken (bs ++ rest) = some (.scalar s, rest)

lemma Represents.decode {bs : List UInt8} {s : Scalar} (h : Represents bs s) (fuel : ℕ)
    (rest : List UInt8) : decode (fuel + 1) (bs ++ rest) = some (.scalar s, rest) := by
  simp only [MsgPack.decode, h rest, Option.bind_some]

/-- Behind a map header stand as many entries as it announces. -/
lemma decode_of_map {bs rest : List UInt8} {n : ℕ} (h : readToken bs = some (.map n, rest))
    (fuel : ℕ) : decode (fuel + 1) bs =
      (decodeMany (decodePair (decode fuel)) n rest).map fun q => (.map q.1, q.2) := by
  rw [decode, h, Option.bind_some]

/-- What reads as a token has a byte. -/
lemma length_pos_of_readToken {bs rest : List UInt8} {t : Token}
    (h : readToken bs = some (t, rest)) : 0 < bs.length := by
  cases bs with
  | nil => exact absurd h (by simp [readToken])
  | cons b bs => exact Nat.succ_pos _

/-- `bs` is a representation of a key and, behind it, of a value. -/
def RepresentsPair (bs : List UInt8) (e : Scalar × Scalar) : Prop :=
  ∃ key value, bs = key ++ value ∧ Represents key e.1 ∧ Represents value e.2

lemma RepresentsPair.decodePair {bs : List UInt8} {e : Scalar × Scalar} (h : RepresentsPair bs e)
    (fuel : ℕ) (rest : List UInt8) :
    decodePair (MsgPack.decode (fuel + 1)) (bs ++ rest) =
      some ((.scalar e.1, .scalar e.2), rest) := by
  obtain ⟨key, value, rfl, hkey, hvalue⟩ := h
  simp only [MsgPack.decodePair, List.append_assoc, hkey.decode, hvalue.decode, Option.bind_some,
    Option.map_some]

/-- Things written one after the other are read one after the other. -/
lemma decodeMany_flatten {α β : Type} {dec : List UInt8 → Option (β × List UInt8)}
    {value : α → β} {parts : List (List UInt8)} {as : List α}
    (h : List.Forall₂ (fun p a => ∀ rest, dec (p ++ rest) = some (value a, rest)) parts as)
    (rest : List UInt8) :
    decodeMany dec parts.length (parts.flatten ++ rest) = some (as.map value, rest) := by
  induction h with
  | nil => rfl
  | cons hhead _ ih =>
      simp only [List.length_cons, decodeMany, List.flatten_cons, List.append_assoc, hhead,
        Option.bind_some, ih, Option.map_some, List.map_cons]

lemma RepresentsPair.length_pos {bs : List UInt8} {e : Scalar × Scalar}
    (h : RepresentsPair bs e) : 0 < bs.length := by
  obtain ⟨key, value, rfl, hkey, _⟩ := h
  exact length_pos_of_readToken (hkey value)

/-- A map header followed by as many entries as it announces, and nothing else, is that map. -/
lemma decodeAll_map {head : List UInt8} {parts : List (List UInt8)} {es : List (Scalar × Scalar)}
    (hhead : ∀ rest, readToken (head ++ rest) = some (.map parts.length, rest))
    (hparts : List.Forall₂ RepresentsPair parts es) :
    decodeAll (head ++ parts.flatten) =
      some (.map (es.map fun e => (.scalar e.1, .scalar e.2))) := by
  have hheadPos : 0 < head.length := by
    have hread := hhead []
    rw [List.append_nil] at hread
    exact length_pos_of_readToken hread
  have hentries : ∀ fuel, (head ++ parts.flatten).length = fuel + 1 →
      decodeMany (decodePair (decode fuel)) parts.length parts.flatten =
        some (es.map fun e => (.scalar e.1, .scalar e.2), []) := by
    intro fuel hfuel
    cases hparts with
    | nil => rfl
    | @cons part _ parts _ hpart hparts =>
        -- the entry takes a byte besides the header's, so there is fuel for its parts
        have hpartPos := hpart.length_pos
        rw [List.flatten_cons, List.length_append, List.length_append] at hfuel
        obtain ⟨n, rfl⟩ := Nat.exists_eq_add_of_lt (show 0 < fuel by omega)
        have hmany := decodeMany_flatten
          ((List.Forall₂.cons hpart hparts).imp fun _ _ h => h.decodePair (0 + n)) []
        rwa [List.append_nil] at hmany
  obtain ⟨fuel, hfuel⟩ := Nat.exists_eq_add_of_le'
    (show 1 ≤ (head ++ parts.flatten).length by rw [List.length_append]; omega)
  rw [decodeAll, hfuel, decode_of_map (hhead _), hentries fuel hfuel]
  rfl

end LumbreExt.Lib.MsgPack
