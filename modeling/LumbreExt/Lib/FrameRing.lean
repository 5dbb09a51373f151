import LumbreExt.Lib.Bytes

/-!
# Length-prefixed frames in a circular byte buffer

A general account of a byte ring that carries messages as *frames*: a header of fixed width that
holds the message's length, followed by the message. A frame never straddles the end of the ring;
when it would, a *padding marker* stands at its place instead and the frame follows at offset `0`.
Positions are unbounded naturals that only grow; the byte at position `x` is at offset `x % C`.

* `FrameFormat` — the header width, the length encoding and the marker byte.
* `Frames F m C p q msgs` — the positions from `p` to `q` hold exactly the messages `msgs`.
* `Frames.append` — a frame region can be extended at its end.
* `Frames.congr` — the frame rule: what is stored outside the region does not disturb it (`Agree`).
  A marker closer to the end than its own width reaches over the end; the bytes there are required
  to keep the marker value only, since every marker writes the same byte there.
* `Frames.store_frame`, `Frames.store_padded_frame` — what a writer stores to add one message.
-/

namespace LumbreExt.Lib

/-- How a ring frames its messages. -/
structure FrameFormat where
  /-- The width of a header in bytes. -/
  width : ℕ
  /-- The header that announces a message of the given length. -/
  encodeLen : ℕ → List UInt8
  /-- The byte a padding marker repeats. -/
  mark : UInt8
  /-- Headers have the announced width. -/
  length_encodeLen : ∀ n, (encodeLen n).length = width
  /-- A header is not empty. -/
  width_pos : 0 < width

namespace FrameFormat

variable (F : FrameFormat)

/-- The padding marker. -/
def marker : List UInt8 := List.replicate F.width F.mark

@[simp] lemma marker_length : F.marker.length = F.width := by
  simp [marker]

/-- The bytes of one frame. -/
def frame (msg : List UInt8) : List UInt8 := F.encodeLen msg.length ++ msg

@[simp] lemma frame_length (msg : List UInt8) : (F.frame msg).length = F.width + msg.length := by
  simp [frame, F.length_encodeLen]

end FrameFormat

/-- The positions from `p` to `q` of a ring of `C` bytes hold exactly the messages `msgs`. -/
inductive Frames (F : FrameFormat) (m : Mem) (C : ℕ) : ℕ → ℕ → List (List UInt8) → Prop
  /-- An empty region holds no message. -/
  | nil (p : ℕ) : Frames F m C p p []
  /-- A frame that fits before the end of the ring. -/
  | frame {p q : ℕ} {msg : List UInt8} {msgs : List (List UInt8)}
      (hfit : p % C + F.width + msg.length ≤ C)
      (hlen : m.load (p % C) F.width = F.encodeLen msg.length)
      (hmsg : m.load (p % C + F.width) msg.length = msg)
      (rest : Frames F m C (p + F.width + msg.length) q msgs) : Frames F m C p q (msg :: msgs)
  /-- A padding marker; the next message starts at offset `0`. -/
  | pad {p q : ℕ} {msg : List UInt8} {msgs : List (List UInt8)}
      (hoff : 0 < p % C)
      (hmark : m.load (p % C) F.width = F.marker)
      (rest : Frames F m C (p + (C - p % C)) q (msg :: msgs)) : Frames F m C p q (msg :: msgs)

namespace Frames

variable {F : FrameFormat} {m m' : Mem} {C p q r : ℕ} {msg : List UInt8}
  {xs ys msgs : List (List UInt8)}

lemma le (h : Frames F m C p q msgs) : p ≤ q := by
  induction h with
  | nil => exact le_rfl
  | frame _ _ _ _ ih => omega
  | pad _ _ _ ih => omega

/-- A region that holds a message is not empty. -/
lemma lt_of_cons (h : Frames F m C p q (msg :: msgs)) : p < q := by
  have hw := F.width_pos
  generalize hms : msg :: msgs = ms at h
  induction h generalizing msg msgs with
  | nil => cases hms
  | frame _ _ _ rest _ =>
      have := rest.le
      omega
  | pad _ _ rest ih =>
      have := ih rfl
      omega

lemma eq_nil_of_self (h : Frames F m C p p msgs) : msgs = [] := by
  cases msgs with
  | nil => rfl
  | cons msg msgs => exact absurd h.lt_of_cons (lt_irrefl p)

/-- A region that is not empty holds a message. -/
lemma ne_nil_of_ne (h : Frames F m C p q msgs) (hpq : p ≠ q) : msgs ≠ [] := by
  rintro rfl
  cases h with
  | nil => exact hpq rfl

/-- A region has room for the frames it holds. -/
lemma sum_le (h : Frames F m C p q msgs) :
    p + (msgs.map fun msg => F.width + msg.length).sum ≤ q := by
  induction h with
  | nil => exact le_rfl
  | frame _ _ _ _ ih =>
      rw [List.map_cons, List.sum_cons]
      omega
  | pad _ _ _ ih => omega

/-- Consecutive regions concatenate. -/
lemma append (h : Frames F m C p q xs) (h' : Frames F m C q r ys) :
    Frames F m C p r (xs ++ ys) := by
  induction h with
  | nil => exact h'
  | frame hfit hlen hmsg _ ih => exact .frame hfit hlen hmsg (ih h')
  | pad hoff hmark _ ih => exact .pad hoff hmark (ih h')

/-- The region `[p, q)` starts with the frame of `msg` itself, without a marker in front. -/
structure HeadFrame (F : FrameFormat) (m : Mem) (C p q : ℕ) (msg : List UInt8)
    (msgs : List (List UInt8)) : Prop where
  fit : p % C + F.width + msg.length ≤ C
  header : m.load (p % C) F.width = F.encodeLen msg.length
  body : m.load (p % C + F.width) msg.length = msg
  rest : Frames F m C (p + F.width + msg.length) q msgs

lemma HeadFrame.frames (h : HeadFrame F m C p q msg msgs) : Frames F m C p q (msg :: msgs) :=
  .frame h.fit h.header h.body h.rest

lemma HeadFrame.append (h : HeadFrame F m C p q msg msgs) (h' : Frames F m C q r ys) :
    HeadFrame F m C p r msg (msgs ++ ys) :=
  ⟨h.fit, h.header, h.body, h.rest.append h'⟩

/-- A region that holds a message starts with its frame or with a padding marker. -/
lemma headFrame_or_pad (h : Frames F m C p q (msg :: msgs)) :
    HeadFrame F m C p q msg msgs ∨
      0 < p % C ∧ m.load (p % C) F.width = F.marker ∧
        Frames F m C (p + (C - p % C)) q (msg :: msgs) := by
  cases h with
  | frame hfit hlen hmsg rest => exact Or.inl ⟨hfit, hlen, hmsg, rest⟩
  | pad hoff hmark rest => exact Or.inr ⟨hoff, hmark, rest⟩

/-- A region that starts at offset `0` starts with a frame. -/
lemma headFrame_of_offset_zero (h : Frames F m C p q (msg :: msgs)) (hp : p % C = 0) :
    HeadFrame F m C p q msg msgs := by
  rcases h.headFrame_or_pad with hhead | ⟨hoff, _, _⟩
  · exact hhead
  · omega

/-- Positions less than a revolution apart have different offsets. -/
lemma mod_ne_of_lt_of_lt {x y : ℕ} (hxy : x < y) (hyx : y < x + C) : x % C ≠ y % C := by
  intro h
  have hdvd : C ∣ y - x := Nat.dvd_of_mod_eq_zero (Nat.sub_mod_eq_zero_of_mod_eq h.symm)
  have hle := Nat.le_of_dvd (by omega) hdvd
  omega

/-- Offsets that do not reach the end belong to consecutive positions. -/
lemma add_mod_of_lt {x j : ℕ} (hj : x % C + j < C) : (x + j) % C = x % C + j := by
  rw [Nat.add_mod, Nat.mod_eq_of_lt (show j < C by omega), Nat.mod_eq_of_lt hj]

/-- Behind the padding the offsets start again at `0`. -/
lemma add_padding_mod (hC : 0 < C) (x j : ℕ) : (x + (C - x % C) + j) % C = j % C := by
  have hlt := Nat.mod_lt x hC
  have hdiv := Nat.div_add_mod x C
  have hsum : x + (C - x % C) = C * (x / C + 1) := by
    rw [Nat.mul_add, Nat.mul_one]
    omega
  rw [hsum, Nat.mul_add_mod]

/-- Memory `m'` agrees with `m` on the positions of `[p, q)`, and keeps what markers wrote behind
the end of the ring. -/
structure Agree (F : FrameFormat) (m m' : Mem) (C p q : ℕ) : Prop where
  inside : ∀ x, p ≤ x → x < q → m' (x % C) = m (x % C)
  behind : ∀ i, C ≤ i → m i = F.mark → m' i = F.mark

lemma Agree.mono {p' : ℕ} (h : Agree F m m' C p q) (hp : p ≤ p') : Agree F m m' C p' q :=
  ⟨fun x hx hxq => h.inside x (by omega) hxq, h.behind⟩

/-- Bytes read within the ring agree. -/
lemma Agree.load_eq (h : Agree F m m' C p q) {j n : ℕ} (hend : p % C + j + n ≤ C)
    (hq : p + j + n ≤ q) : m'.load (p % C + j) n = m.load (p % C + j) n := by
  apply Mem.load_congr
  intro i hi
  have hoff : p % C + j + i = (p + (j + i)) % C := by
    rw [add_mod_of_lt (by omega)]
    omega
  rw [hoff]
  exact h.inside _ (by omega) (by omega)

/-- A marker reads the same, also where it reaches over the end of the ring. -/
lemma Agree.load_marker (h : Agree F m m' C p q) (hmark : m.load (p % C) F.width = F.marker)
    (hq : p + (C - p % C) ≤ q) : m'.load (p % C) F.width = F.marker := by
  rw [← hmark]
  apply Mem.load_congr
  intro j hj
  have hval : m (p % C + j) = F.mark := by
    have hget := Mem.apply_of_load_eq hmark hj
    simpa [FrameFormat.marker, hj] using hget.symm
  by_cases hend : p % C + j < C
  · rw [← add_mod_of_lt hend]
    exact h.inside (p + j) (by omega) (by omega)
  · rw [hval]
    exact h.behind _ (by omega) hval

/-- **The frame rule.** What is stored outside the region `[p, q)` does not disturb it. -/
lemma congr (h : Frames F m C p q msgs) (hagree : Agree F m m' C p q) :
    Frames F m' C p q msgs := by
  induction h with
  | nil p => exact .nil p
  | @frame p q msg msgs hfit hlen hmsg rest ih =>
      have hq := rest.le
      refine .frame hfit ?_ ?_ (ih (hagree.mono (by omega)))
      · rw [← hlen]
        exact hagree.load_eq (j := 0) (by omega) (by omega)
      · rw [hagree.load_eq (by omega) (by omega), hmsg]
  | @pad p q msg msgs hoff hmark rest ih =>
      have hq := rest.le
      exact .pad hoff (hagree.load_marker hmark hq) (ih (hagree.mono (by omega)))

lemma HeadFrame.congr (h : HeadFrame F m C p q msg msgs) (hagree : Agree F m m' C p q) :
    HeadFrame F m' C p q msg msgs := by
  have hq := h.rest.le
  have hfit := h.fit
  refine ⟨hfit, ?_, ?_, h.rest.congr (hagree.mono (by omega))⟩
  · rw [← h.header]
    exact hagree.load_eq (j := 0) (by omega) (by omega)
  · rw [hagree.load_eq (by omega) (by omega), h.body]

/-- A frame just stored at offset `a` reads back. -/
lemma load_frame_storeAll (F : FrameFormat) (m : Mem) (a : ℕ) (msg : List UInt8) :
    (m.storeAll (copyStores a (F.frame msg))).load a F.width = F.encodeLen msg.length ∧
      (m.storeAll (copyStores a (F.frame msg))).load (a + F.width) msg.length = msg := by
  have hall := Mem.load_storeAll_copyStores m a (F.frame msg)
  rw [F.frame_length, Mem.load_add] at hall
  have hwidth : (Mem.load (m.storeAll (copyStores a (F.frame msg))) a F.width).length =
      (F.encodeLen msg.length).length := by
    rw [Mem.load_length, F.length_encodeLen]
  exact List.append_inj hall hwidth

/-- Storing a frame at the offset of `p`, where it fits, makes it the region behind `p`. -/
lemma store_frame (F : FrameFormat) (m : Mem) {C p : ℕ} (msg : List UInt8)
    (hfit : p % C + F.width + msg.length ≤ C) :
    Frames F (m.storeAll (copyStores (p % C) (F.frame msg))) C p (p + F.width + msg.length)
      [msg] := by
  obtain ⟨hheader, hbody⟩ := load_frame_storeAll F m (p % C) msg
  exact .frame hfit hheader hbody (.nil _)

/-- Storing a marker at the offset of `p` and a frame at offset `0`, which ends before the marker,
makes the two the region behind `p`. -/
lemma store_padded_frame (F : FrameFormat) (m : Mem) {C p : ℕ} (msg : List UInt8)
    (hC : 0 < C) (hend : F.width + msg.length ≤ p % C) :
    Frames F ((m.storeAll (copyStores (p % C) F.marker)).storeAll (copyStores 0 (F.frame msg))) C p
      (p + (C - p % C) + F.width + msg.length) [msg] := by
  have hlt := Nat.mod_lt p hC
  have hwidth := F.width_pos
  have hzero : (p + (C - p % C)) % C = 0 := add_padding_mod hC p 0
  refine .pad (by omega) ?_ ?_
  · rw [Mem.load_storeAll_copyStores_of_disjoint _ (Or.inr (by rw [F.frame_length]; omega))]
    have hmarker := Mem.load_storeAll_copyStores m (p % C) F.marker
    rwa [F.marker_length] at hmarker
  · have hframe := store_frame F (m.storeAll (copyStores (p % C) F.marker)) (C := C)
      (p := p + (C - p % C)) msg (by omega)
    rwa [hzero] at hframe

end Frames

end LumbreExt.Lib
