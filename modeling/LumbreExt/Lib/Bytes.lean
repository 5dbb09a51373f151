import Mathlib.Logic.Function.Basic
import Mathlib.Data.List.Basic
import Mathlib.Algebra.Ring.Nat
import Mathlib.Tactic.Common

/-!
# Byte memory and fixed-width byte strings

The ground layer for code that copies bytes with `memcpy`. It has no knowledge of any program.

* `Mem` — bytes addressed by the offset from a base address. It is total: a program that stores
  past the end of its object is visible as a store at a large offset, not as a stuck state.
* `Mem.load`, `Mem.storeAll`, `copyStores` — reading a run of bytes, and the list of single-byte
  stores that a `memcpy` performs, in ascending order. Keeping the stores as a list is what lets a
  concurrent reader be placed between any two of them.
* `leBytes`, `beBytes` — the `n`-byte little- and big-endian representation of a natural number
  (taken modulo `256 ^ n`), with their readers `ofLeBytes`, `ofBeBytes`.
* `packed`, `fieldAt` — a record of such fields without gaps, and the field at an offset of it.
-/

namespace LumbreExt.Lib

/-! ## Memory -/

/-- Bytes addressed by the offset from a base address. -/
abbrev Mem := ℕ → UInt8

namespace Mem

/-- The `n` bytes from offset `a` on. -/
def load (m : Mem) (a n : ℕ) : List UInt8 :=
  (List.range n).map fun i => m (a + i)

/-- One byte store: the byte `s.2` at offset `s.1`. -/
def store (m : Mem) (s : ℕ × UInt8) : Mem :=
  Function.update m s.1 s.2

/-- A sequence of byte stores, the first one first. -/
def storeAll (m : Mem) (ss : List (ℕ × UInt8)) : Mem :=
  ss.foldl store m

/-- A memory that starts with `bs`. -/
def ofList (bs : List UInt8) : Mem :=
  fun i => bs.getD i 0

@[simp] lemma storeAll_nil (m : Mem) : m.storeAll [] = m := rfl

@[simp] lemma storeAll_cons (m : Mem) (s : ℕ × UInt8) (ss : List (ℕ × UInt8)) :
    m.storeAll (s :: ss) = (m.store s).storeAll ss := rfl

lemma storeAll_append (m : Mem) (ss ts : List (ℕ × UInt8)) :
    m.storeAll (ss ++ ts) = (m.storeAll ss).storeAll ts :=
  List.foldl_append

@[simp] lemma load_length (m : Mem) (a n : ℕ) : (m.load a n).length = n := by
  simp [load]

@[simp] lemma load_zero (m : Mem) (a : ℕ) : m.load a 0 = [] := rfl

lemma load_succ (m : Mem) (a n : ℕ) : m.load a (n + 1) = m a :: m.load (a + 1) n := by
  simp only [load, List.range_succ_eq_map, List.map_cons, List.map_map, Nat.add_zero]
  congr 1
  apply List.map_congr_left
  intro i _
  simp only [Function.comp_apply, Nat.succ_eq_add_one]
  congr 1
  omega

/-- A run of bytes is the concatenation of its two parts. -/
lemma load_add (m : Mem) (a n k : ℕ) : m.load a (n + k) = m.load a n ++ m.load (a + n) k := by
  induction n generalizing a with
  | zero => simp
  | succ n ih =>
      have hlen : n + 1 + k = n + k + 1 := by omega
      have hoff : a + 1 + n = a + (n + 1) := by omega
      rw [hlen, load_succ, load_succ, ih, hoff, List.cons_append]

/-- A byte string that starts a memory is read back. -/
lemma load_ofList (bs : List UInt8) : (ofList bs).load 0 bs.length = bs := by
  apply List.ext_getElem (load_length _ 0 bs.length)
  intro i hi hi'
  simp [load, ofList, hi']

/-- The first bytes of a byte string that starts a memory. -/
lemma load_ofList_of_le {bs : List UInt8} {n : ℕ} (h : n ≤ bs.length) :
    (ofList bs).load 0 n = bs.take n := by
  obtain ⟨k, hk⟩ := Nat.exists_eq_add_of_le h
  have hall := load_ofList bs
  rw [hk, load_add] at hall
  have htake := congrArg (List.take n) hall
  rwa [List.take_left' (load_length _ 0 n)] at htake

/-- Reading depends only on the bytes in the range. -/
lemma load_congr {m m' : Mem} {a n : ℕ} (h : ∀ i, i < n → m (a + i) = m' (a + i)) :
    m.load a n = m'.load a n := by
  unfold load
  apply List.map_congr_left
  intro i hi
  exact h i (List.mem_range.mp hi)

/-- The byte at an offset of a run that is known. -/
lemma apply_of_load_eq {m : Mem} {a n i : ℕ} {bs : List UInt8} (h : m.load a n = bs)
    (hi : i < n) : bs[i]? = some (m (a + i)) := by
  subst h
  simp [load, hi]

/-- A byte no store hits keeps its value. -/
lemma storeAll_apply_of_not_mem {ss : List (ℕ × UInt8)} {i : ℕ} (m : Mem)
    (h : ∀ s ∈ ss, s.1 ≠ i) : m.storeAll ss i = m i := by
  induction ss generalizing m with
  | nil => rfl
  | cons s ss ih =>
      have htail : ∀ t ∈ ss, t.1 ≠ i := fun t ht => h t (List.mem_cons_of_mem s ht)
      have hhead : i ≠ s.1 := (h s List.mem_cons_self).symm
      rw [storeAll_cons, ih (m.store s) htail]
      exact Function.update_of_ne hhead s.2 m

end Mem

/-- The byte stores of a `memcpy` of `bs` to offset `a`, in ascending order. -/
def copyStores (a : ℕ) : List UInt8 → List (ℕ × UInt8)
  | [] => []
  | b :: bs => (a, b) :: copyStores (a + 1) bs

@[simp] lemma copyStores_nil (a : ℕ) : copyStores a [] = [] := rfl

@[simp] lemma copyStores_cons (a : ℕ) (b : UInt8) (bs : List UInt8) :
    copyStores a (b :: bs) = (a, b) :: copyStores (a + 1) bs := rfl

lemma copyStores_append (a : ℕ) (bs cs : List UInt8) :
    copyStores a (bs ++ cs) = copyStores a bs ++ copyStores (a + bs.length) cs := by
  induction bs generalizing a with
  | nil => simp
  | cons b bs ih =>
      have hoff : a + 1 + bs.length = a + (bs.length + 1) := by omega
      simp [ih, hoff]

/-- The offsets a `memcpy` stores to are exactly its range. -/
lemma mem_copyStores_fst {a i : ℕ} {bs : List UInt8} :
    i ∈ (copyStores a bs).map Prod.fst ↔ a ≤ i ∧ i < a + bs.length := by
  induction bs generalizing a with
  | nil => simp
  | cons b bs ih =>
      simp only [copyStores_cons, List.map_cons, List.mem_cons, ih, List.length_cons]
      omega

lemma bounds_of_mem_copyStores {a : ℕ} {bs : List UInt8} {s : ℕ × UInt8}
    (h : s ∈ copyStores a bs) : a ≤ s.1 ∧ s.1 < a + bs.length :=
  mem_copyStores_fst.mp (List.mem_map_of_mem h)

/-- The bytes a `memcpy` stores are the bytes copied. -/
lemma snd_mem_of_mem_copyStores {a : ℕ} {bs : List UInt8} {s : ℕ × UInt8}
    (h : s ∈ copyStores a bs) : s.2 ∈ bs := by
  induction bs generalizing a with
  | nil => simp at h
  | cons b bs ih =>
      rcases List.mem_cons.mp h with rfl | h'
      · exact List.mem_cons_self
      · exact List.mem_cons_of_mem b (ih h')

namespace Mem

/-- Outside its range a `memcpy` changes nothing. -/
lemma storeAll_copyStores_of_outside (m : Mem) {a i : ℕ} {bs : List UInt8}
    (h : i < a ∨ a + bs.length ≤ i) : m.storeAll (copyStores a bs) i = m i := by
  apply storeAll_apply_of_not_mem
  intro s hs
  have hb := bounds_of_mem_copyStores hs
  omega

/-- A run of bytes disjoint from the range of a `memcpy` reads as before. -/
lemma load_storeAll_copyStores_of_disjoint (m : Mem) {a n b : ℕ} {bs : List UInt8}
    (h : a + n ≤ b ∨ b + bs.length ≤ a) :
    (m.storeAll (copyStores b bs)).load a n = m.load a n := by
  apply load_congr
  intro i hi
  apply storeAll_copyStores_of_outside
  omega

/-- What a `memcpy` wrote reads back. -/
lemma load_storeAll_copyStores (m : Mem) (a : ℕ) (bs : List UInt8) :
    (m.storeAll (copyStores a bs)).load a bs.length = bs := by
  induction bs generalizing a m with
  | nil => rfl
  | cons b bs ih =>
      rw [copyStores_cons, storeAll_cons, List.length_cons, load_succ, ih]
      congr 1
      rw [storeAll_copyStores_of_outside (m.store (a, b)) (Or.inl (by omega))]
      simp [store]

end Mem

/-! ## Little- and big-endian byte strings -/

/-- The `n`-byte little-endian representation of `v` modulo `256 ^ n`. -/
def leBytes : ℕ → ℕ → List UInt8
  | 0, _ => []
  | n + 1, v => UInt8.ofNat v :: leBytes n (v / 256)

/-- The natural number a little-endian byte string denotes. -/
def ofLeBytes : List UInt8 → ℕ
  | [] => 0
  | b :: bs => b.toNat + 256 * ofLeBytes bs

/-- The `n`-byte big-endian representation of `v` modulo `256 ^ n`. -/
def beBytes (n v : ℕ) : List UInt8 :=
  (leBytes n v).reverse

/-- The natural number a big-endian byte string denotes. -/
def ofBeBytes (bs : List UInt8) : ℕ :=
  ofLeBytes bs.reverse

@[simp] lemma leBytes_length (n v : ℕ) : (leBytes n v).length = n := by
  induction n generalizing v with
  | zero => rfl
  | succ n ih => simp [leBytes, ih]

@[simp] lemma beBytes_length (n v : ℕ) : (beBytes n v).length = n := by
  simp [beBytes]

/-- Reading back a little-endian representation gives the number modulo `256 ^ n`. -/
lemma ofLeBytes_leBytes (n v : ℕ) : ofLeBytes (leBytes n v) = v % 256 ^ n := by
  induction n generalizing v with
  | zero => simp [leBytes, ofLeBytes, Nat.mod_one]
  | succ n ih =>
      have hpow : (256 : ℕ) ^ (n + 1) = 256 * 256 ^ n := by rw [Nat.pow_succ, Nat.mul_comm]
      rw [leBytes, ofLeBytes, ih, hpow, Nat.mod_mul]
      simp

lemma ofLeBytes_leBytes_of_lt {n v : ℕ} (h : v < 256 ^ n) : ofLeBytes (leBytes n v) = v := by
  rw [ofLeBytes_leBytes, Nat.mod_eq_of_lt h]

lemma ofBeBytes_beBytes_of_lt {n v : ℕ} (h : v < 256 ^ n) : ofBeBytes (beBytes n v) = v := by
  rw [ofBeBytes, beBytes, List.reverse_reverse, ofLeBytes_leBytes_of_lt h]

/-- A byte string denotes a number of its length. -/
lemma ofLeBytes_lt (bs : List UInt8) : ofLeBytes bs < 256 ^ bs.length := by
  induction bs with
  | nil => exact Nat.one_pos
  | cons b bs ih =>
      have hb : b.toNat < 256 := b.toNat_lt
      rw [ofLeBytes, List.length_cons, Nat.pow_succ]
      omega

lemma ofBeBytes_lt (bs : List UInt8) : ofBeBytes bs < 256 ^ bs.length := by
  rw [ofBeBytes, ← List.length_reverse]
  exact ofLeBytes_lt bs.reverse

/-! ## Packed records -/

/-- The fields of a record, given by width and value, one behind the other without gaps. -/
def packed (fields : List (ℕ × ℕ)) : List UInt8 :=
  fields.flatMap fun f => leBytes f.1 f.2

/-- How many bytes the fields take. -/
def packedWidth (fields : List (ℕ × ℕ)) : ℕ := (fields.map Prod.fst).sum

/-- The field of width `n` at an offset. -/
def fieldAt (bytes : List UInt8) (offset n : ℕ) : ℕ := ofLeBytes ((bytes.drop offset).take n)

lemma packed_append_cons (xs ys : List (ℕ × ℕ)) (n v : ℕ) :
    packed (xs ++ (n, v) :: ys) = packed xs ++ (leBytes n v ++ packed ys) := by
  unfold packed
  rw [List.flatMap_append, List.flatMap_cons]

@[simp] lemma length_packed (fields : List (ℕ × ℕ)) :
    (packed fields).length = packedWidth fields := by
  induction fields with
  | nil => rfl
  | cons f fields ih =>
      have hcons : packed (f :: fields) = leBytes f.1 f.2 ++ packed fields := rfl
      rw [hcons, List.length_append, leBytes_length, ih]
      rfl

/-- A field is read back at the offset behind the fields in front of it. -/
lemma fieldAt_packed (xs ys : List (ℕ × ℕ)) {n v : ℕ} (hv : v < 256 ^ n) :
    fieldAt (packed (xs ++ (n, v) :: ys)) (packedWidth xs) n = v := by
  rw [fieldAt, packed_append_cons, List.drop_left' (length_packed xs),
    List.take_left' (leBytes_length n v), ofLeBytes_leBytes_of_lt hv]

/-- Another value in a field changes the bytes of that field only. -/
lemma getElem?_packed_of_outside (xs ys : List (ℕ × ℕ)) {n v v' i : ℕ}
    (h : i < packedWidth xs ∨ packedWidth xs + n ≤ i) :
    (packed (xs ++ (n, v) :: ys))[i]? = (packed (xs ++ (n, v') :: ys))[i]? := by
  rw [packed_append_cons, packed_append_cons]
  rcases h with hi | hi
  · rw [← length_packed] at hi
    rw [List.getElem?_append_left hi, List.getElem?_append_left hi]
  · have hxs : (packed xs).length ≤ i := by
      rw [length_packed]
      omega
    have hfield : ∀ w, (leBytes n w).length ≤ i - (packed xs).length := by
      intro w
      rw [leBytes_length, length_packed]
      omega
    rw [List.getElem?_append_right hxs, List.getElem?_append_right hxs,
      List.getElem?_append_right (hfield v), List.getElem?_append_right (hfield v'),
      leBytes_length, leBytes_length]

end LumbreExt.Lib
