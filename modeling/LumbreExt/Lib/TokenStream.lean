import LumbreExt.Lib.MsgPack

/-!
# Streams of MessagePack tokens

Reading tokens until the bytes end, and how many bytes that takes. No knowledge of any program.

* `readTokens` — the tokens of a list of bytes, `none` unless they end behind a token.
  `readTokens_append` reads one stream behind another, `readTokens_flatMap` reads back what was
  written token by token.
* `Token.minBytes` — a number of bytes that every form of a token takes. `readToken_split` has the
  fact for one token, by cases on the table of formats, and `minBytes_readTokens_le` is the one for a
  stream.
* `minBytes_decodeAll_le` — no representation of a map of scalars goes below the sum of these numbers.
-/

namespace LumbreExt.Lib.MsgPack

/-! ## The bytes of a token -/

/-- A number of bytes that no form of the token goes below. -/
def Token.minBytes : Token → ℕ
  | .map n => if n ≤ 15 then 1 else if n < 2 ^ 16 then 3 else 5
  | .scalar (.int i) =>
      if i < 128 then 1 else if i < 2 ^ 8 then 2 else if i < 2 ^ 16 then 3
      else if i < 2 ^ 32 then 5 else 9
  | .scalar (.str bs) =>
      bs.length + if bs.length < 32 then 1 else if bs.length < 2 ^ 8 then 2
        else if bs.length < 2 ^ 16 then 3 else 5
  | .scalar (.bin bs) =>
      bs.length + if bs.length < 2 ^ 8 then 2 else if bs.length < 2 ^ 16 then 3 else 5
  | _ => 1

/-- Behind the header byte stand at least the bytes the token needs. -/
def Header.Honest : Header → Prop
  | .immediate t => t.minBytes ≤ 1
  | .number width mk => ∀ v < 256 ^ width, (mk v).minBytes ≤ 1 + width
  | .content n mk => ∀ bs : List UInt8, bs.length = n → (mk bs).minBytes ≤ 1 + n
  | .sized width extra mk => ∀ bs : List UInt8, bs.length < 256 ^ width + extra →
      (mk bs).minBytes ≤ 1 + width + bs.length
  | .reserved => True

lemma minBytes_int_mono {i j : ℤ} (h : i ≤ j) :
    (Token.scalar (.int i)).minBytes ≤ (Token.scalar (.int j)).minBytes := by
  simp only [Token.minBytes]
  split_ifs <;> omega

lemma honest_intToken {width : ℕ} (hwidth : width ∈ [1, 2, 4, 8]) :
    (Header.number width intToken).Honest := by
  intro v hv
  simp only [List.mem_cons, List.not_mem_nil, or_false] at hwidth
  rcases hwidth with rfl | rfl | rfl | rfl <;> simp only [intToken, Token.minBytes] <;>
    split_ifs <;> omega

/-- A signed number is not larger than the unsigned one with the same bytes. -/
lemma honest_signedToken {width : ℕ} (hwidth : width ∈ [1, 2, 4, 8]) :
    (Header.number width (signedToken width)).Honest := by
  intro v hv
  have hle : signed width v ≤ v := by
    have hpos : 0 < (256 : ℤ) ^ width := Int.pow_pos (by decide)
    unfold signed
    split_ifs <;> omega
  exact le_trans (minBytes_int_mono hle) (honest_intToken hwidth v hv)

lemma honest_strToken {width : ℕ} (hwidth : width ∈ [1, 2, 4]) :
    (Header.sized width 0 strToken).Honest := by
  intro bs hbs
  simp only [List.mem_cons, List.not_mem_nil, or_false] at hwidth
  rcases hwidth with rfl | rfl | rfl <;> simp only [strToken, Token.minBytes] <;>
    split_ifs <;> omega

lemma honest_binToken {width : ℕ} (hwidth : width ∈ [1, 2, 4]) :
    (Header.sized width 0 binToken).Honest := by
  intro bs hbs
  simp only [List.mem_cons, List.not_mem_nil, or_false] at hwidth
  rcases hwidth with rfl | rfl | rfl <;> simp only [binToken, Token.minBytes] <;>
    split_ifs <;> omega

lemma honest_map {width : ℕ} (hwidth : width ∈ [2, 4]) : (Header.number width .map).Honest := by
  intro v hv
  simp only [List.mem_cons, List.not_mem_nil, or_false] at hwidth
  rcases hwidth with rfl | rfl <;> simp only [Token.minBytes] <;> split_ifs <;> omega

lemma minBytes_extToken (bs : List UInt8) : (extToken bs).minBytes = 1 := by
  cases bs <;> rfl

lemma honest_extContent (n : ℕ) : (Header.content n extToken).Honest := by
  intro bs _
  rw [minBytes_extToken]
  exact Nat.le_add_right 1 n

lemma honest_extSized (width extra : ℕ) : (Header.sized width extra extToken).Honest := by
  intro bs _
  rw [minBytes_extToken, Nat.add_assoc]
  exact Nat.le_add_right 1 _

/-- **Every format of the table is honest.** -/
lemma honest_header (b : UInt8) : (header b).Honest := by
  have hlt : b.toNat < 256 := b.toNat_lt
  unfold header
  dsimp only
  split_ifs with hfixint hfixmap hfixarray hfixstr hnegative
  · simp only [Header.Honest, intToken, Token.minBytes]
    split_ifs <;> omega
  · simp only [Header.Honest, Token.minBytes]
    split_ifs <;> omega
  · exact le_rfl
  · intro bs hbs
    simp only [strToken, Token.minBytes]
    split_ifs <;> omega
  · simp only [Header.Honest, signedToken, signed, Token.minBytes]
    split_ifs <;> omega
  · -- the formats with a header byte of their own, by the shape of what follows
    split
    all_goals first
      | with_reducible exact honest_intToken (by decide)
      | with_reducible exact honest_signedToken (by decide)
      | with_reducible exact honest_strToken (by decide)
      | with_reducible exact honest_binToken (by decide)
      | with_reducible exact honest_map (by decide)
      | with_reducible exact honest_extContent _
      | with_reducible exact honest_extSized _ _
      | exact fun _ _ => Nat.le_add_right 1 _
      | exact Nat.le_refl 1
      | exact trivial

lemma takeBytes_eq_some {n : ℕ} {bs bs' rest : List UInt8} (h : takeBytes n bs = some (bs', rest)) :
    bs = bs' ++ rest ∧ bs'.length = n := by
  unfold takeBytes at h
  split_ifs at h with hn
  obtain ⟨rfl, rfl⟩ := Prod.mk.inj (Option.some.inj h)
  exact ⟨(List.take_append_drop n bs).symm, List.length_take_of_le hn⟩

/-- **How a token is read**: its own bytes stand in front of the rest, they are at least as many as
every form of the token has, and they are read the same whatever stands behind them. -/
lemma readToken_split {bs rest : List UInt8} {t : Token} (h : readToken bs = some (t, rest)) :
    ∃ form : List UInt8, bs = form ++ rest ∧ t.minBytes ≤ form.length ∧
      ∀ more, readToken (form ++ more) = some (t, more) := by
  cases bs with
  | nil => exact absurd h (by simp [readToken])
  | cons b bs =>
      have hhonest := honest_header b
      simp only [readToken] at h
      cases hheader : header b with
      | immediate t' =>
          rw [hheader] at h hhonest
          obtain ⟨rfl, rfl⟩ := Prod.mk.inj (Option.some.inj h)
          exact ⟨[b], rfl, hhonest, fun more => readToken_immediate hheader⟩
      | number width mk =>
          rw [hheader] at h hhonest
          obtain ⟨⟨num, rest'⟩, htake, hmk⟩ := Option.map_eq_some_iff.mp h
          obtain ⟨rfl, rfl⟩ := Prod.mk.inj hmk
          obtain ⟨rfl, hlength⟩ := takeBytes_eq_some htake
          have hmin := hhonest (ofBeBytes num) (by rw [← hlength]; exact ofBeBytes_lt num)
          refine ⟨b :: num, rfl, ?_, ?_⟩
          · rw [List.length_cons]
            dsimp only
            omega
          · intro more
            simp only [List.cons_append, readToken, hheader, takeBytes_append more hlength,
              Option.map_some]
      | content n mk =>
          rw [hheader] at h hhonest
          obtain ⟨⟨content, rest'⟩, htake, hmk⟩ := Option.map_eq_some_iff.mp h
          obtain ⟨rfl, rfl⟩ := Prod.mk.inj hmk
          obtain ⟨rfl, hlength⟩ := takeBytes_eq_some htake
          have hmin := hhonest content hlength
          refine ⟨b :: content, rfl, ?_, ?_⟩
          · rw [List.length_cons]
            dsimp only
            omega
          · intro more
            simp only [List.cons_append, readToken, hheader, takeBytes_append more hlength,
              Option.map_some]
      | sized width extra mk =>
          rw [hheader] at h hhonest
          obtain ⟨⟨num, behind⟩, htake, hrest⟩ := Option.bind_eq_some_iff.mp h
          obtain ⟨⟨content, rest'⟩, htake', hmk⟩ := Option.map_eq_some_iff.mp hrest
          obtain ⟨rfl, rfl⟩ := Prod.mk.inj hmk
          dsimp only at htake' ⊢
          obtain ⟨rfl, hlength⟩ := takeBytes_eq_some htake
          obtain ⟨rfl, hlength'⟩ := takeBytes_eq_some htake'
          have hnum : ofBeBytes num < 256 ^ width := by
            rw [← hlength]
            exact ofBeBytes_lt num
          have hmin := hhonest content (by omega)
          refine ⟨b :: (num ++ content), ?_, ?_, ?_⟩
          · rw [List.cons_append, List.append_assoc]
          · rw [List.length_cons, List.length_append]
            omega
          · intro more
            simp only [List.cons_append, List.append_assoc, readToken, hheader,
              takeBytes_append (content ++ more) hlength, Option.bind_some,
              takeBytes_append more hlength', Option.map_some]
      | reserved =>
          rw [hheader] at h
          exact absurd h (by simp)

/-- What is read as a token was at least as long as every form of it. -/
lemma minBytes_readToken_le {bs rest : List UInt8} {t : Token}
    (h : readToken bs = some (t, rest)) : t.minBytes + rest.length ≤ bs.length := by
  obtain ⟨form, rfl, hmin, _⟩ := readToken_split h
  rw [List.length_append]
  omega

/-- What stands behind a token does not change how it is read. -/
lemma readToken_append {bs rest : List UInt8} {t : Token} (h : readToken bs = some (t, rest))
    (more : List UInt8) : readToken (bs ++ more) = some (t, rest ++ more) := by
  obtain ⟨form, rfl, _, hread⟩ := readToken_split h
  rw [List.append_assoc]
  exact hread (rest ++ more)

/-- Every form takes a byte. -/
lemma Token.minBytes_pos (t : Token) : 0 < t.minBytes := by
  unfold Token.minBytes
  split <;> first | split_ifs <;> omega | omega

/-! ## Streams -/

/-- The tokens of a list of bytes, up to `fuel` of them. -/
def readTokensWith : ℕ → List UInt8 → Option (List Token)
  | _, [] => some []
  | 0, _ :: _ => none
  | fuel + 1, b :: bs =>
      (readToken (b :: bs)).bind fun p => (readTokensWith fuel p.2).map (p.1 :: ·)

/-- The tokens of a list of bytes that ends behind a token. Every token takes a byte, so there are
no more of them than bytes. -/
def readTokens (bs : List UInt8) : Option (List Token) := readTokensWith bs.length bs

/-- More fuel than bytes makes no difference. -/
lemma readTokensWith_eq {fuel fuel' : ℕ} {bs : List UInt8} (h : bs.length ≤ fuel)
    (h' : bs.length ≤ fuel') : readTokensWith fuel bs = readTokensWith fuel' bs := by
  induction fuel generalizing fuel' bs with
  | zero =>
      obtain rfl := List.length_eq_zero_iff.mp (Nat.le_zero.mp h)
      cases fuel' <;> rfl
  | succ fuel ih =>
      cases bs with
      | nil => cases fuel' <;> rfl
      | cons b bs =>
          cases fuel' with
          | zero => exact absurd h' (by simp)
          | succ fuel' =>
              rw [readTokensWith, readTokensWith]
              cases hread : readToken (b :: bs) with
              | none => rfl
              | some p =>
                  obtain ⟨t, rest⟩ := p
                  have hle := minBytes_readToken_le hread
                  have hpos := t.minBytes_pos
                  rw [List.length_cons] at h h' hle
                  have hih : readTokensWith fuel rest = readTokensWith fuel' rest :=
                    ih (by omega) (by omega)
                  rw [Option.bind_some, Option.bind_some, hih]

/-- A stream that starts with a token. -/
lemma readTokens_of_readToken {bs rest : List UInt8} {t : Token}
    (h : readToken bs = some (t, rest)) : readTokens bs = (readTokens rest).map (t :: ·) := by
  have hle := minBytes_readToken_le h
  have hpos := t.minBytes_pos
  cases bs with
  | nil => exact absurd h (by simp [readToken])
  | cons b bs =>
      rw [List.length_cons] at hle
      rw [readTokens, List.length_cons, readTokensWith, h, Option.bind_some, readTokens,
        readTokensWith_eq (show rest.length ≤ bs.length by omega) le_rfl]

/-- A stream of at least one byte starts with a token. -/
lemma readTokens_cons {b : UInt8} {bs : List UInt8} {ts : List Token}
    (h : readTokens (b :: bs) = some ts) :
    ∃ t rest ts', readToken (b :: bs) = some (t, rest) ∧ readTokens rest = some ts' ∧
      t :: ts' = ts := by
  obtain ⟨⟨t, rest⟩, hread, _⟩ := Option.bind_eq_some_iff.mp h
  rw [readTokens_of_readToken hread] at h
  obtain ⟨ts', hrest, hcons⟩ := Option.map_eq_some_iff.mp h
  exact ⟨t, rest, ts', hread, hrest, hcons⟩

/-- A stream of at least one token starts with it. -/
lemma readTokens_eq_cons {bs : List UInt8} {t : Token} {ts : List Token}
    (h : readTokens bs = some (t :: ts)) :
    ∃ rest, readToken bs = some (t, rest) ∧ readTokens rest = some ts := by
  cases bs with
  | nil => exact absurd (Option.some.inj h) (List.cons_ne_nil t ts).symm
  | cons b bs =>
      obtain ⟨t', rest, ts', hread, hrest, hcons⟩ := readTokens_cons h
      obtain ⟨rfl, rfl⟩ := List.cons.inj hcons
      exact ⟨rest, hread, hrest⟩

/-- Only the empty stream has no tokens. -/
lemma eq_nil_of_readTokens {bs : List UInt8} (h : readTokens bs = some []) : bs = [] := by
  cases bs with
  | nil => rfl
  | cons b bs =>
      obtain ⟨t, _, ts, _, _, hcons⟩ := readTokens_cons h
      exact absurd hcons (List.cons_ne_nil t ts)

/-- **Behind a stream, a second one**: the tokens of the first, then those of the second. -/
lemma readTokens_append {bs : List UInt8} {ts : List Token} (h : readTokens bs = some ts)
    (bs' : List UInt8) : readTokens (bs ++ bs') = (readTokens bs').map (ts ++ ·) := by
  induction ts generalizing bs with
  | nil =>
      rw [eq_nil_of_readTokens h]
      exact Option.map_id'.symm
  | cons t ts ih =>
      obtain ⟨rest, hread, hrest⟩ := readTokens_eq_cons h
      rw [readTokens_of_readToken (readToken_append hread bs'), ih hrest, Option.map_map]
      rfl

/-- What was written token by token is read back token by token. -/
lemma readTokens_flatMap {α : Type} {bytes : α → List UInt8} {token : α → Token} {as : List α}
    (h : ∀ a ∈ as, ∀ rest, readToken (bytes a ++ rest) = some (token a, rest)) :
    readTokens (as.flatMap bytes) = some (as.map token) := by
  induction as with
  | nil => rfl
  | cons a as ih =>
      rw [List.flatMap_cons, readTokens_of_readToken (h a List.mem_cons_self _),
        ih fun a' ha' => h a' (List.mem_cons_of_mem a ha'), Option.map_some, List.map_cons]

/-- **A stream was at least as long as its tokens.** -/
lemma minBytes_readTokens_le {ts : List Token} {bs : List UInt8} (h : readTokens bs = some ts) :
    (ts.map Token.minBytes).sum ≤ bs.length := by
  induction ts generalizing bs with
  | nil => exact Nat.zero_le _
  | cons t ts ih =>
      obtain ⟨rest, hread, hrest⟩ := readTokens_eq_cons h
      have hle := minBytes_readToken_le hread
      have hsum := ih hrest
      rw [List.map_cons, List.sum_cons]
      omega

/-! ## Maps of scalars -/

/-- A number of bytes that no form of a key and a value goes below. -/
def pairMinBytes (e : Scalar × Scalar) : ℕ :=
  (Token.scalar e.1).minBytes + (Token.scalar e.2).minBytes

/-- What is decoded as a scalar is read as one token. -/
lemma readToken_of_decode {fuel : ℕ} {bs rest : List UInt8} {s : Scalar}
    (h : decode fuel bs = some (.scalar s, rest)) : readToken bs = some (.scalar s, rest) := by
  cases fuel with
  | zero => exact absurd h.symm (Option.some_ne_none _)
  | succ fuel =>
      obtain ⟨⟨t, behind⟩, hread, hvalue⟩ := Option.bind_eq_some_iff.mp h
      rw [hread]
      cases t with
      | scalar s' =>
          obtain ⟨hs, rfl⟩ := Prod.mk.inj (Option.some.inj hvalue)
          rw [Value.scalar.inj hs]
      | array n =>
          obtain ⟨_, _, hq⟩ := Option.map_eq_some_iff.mp hvalue
          exact Value.noConfusion (Prod.mk.inj hq).1
      | map n =>
          obtain ⟨_, _, hq⟩ := Option.map_eq_some_iff.mp hvalue
          exact Value.noConfusion (Prod.mk.inj hq).1

/-- What is decoded as a map starts with its header. -/
lemma decode_eq_map {fuel : ℕ} {bs rest : List UInt8} {entries : List (Value × Value)}
    (h : decode fuel bs = some (.map entries, rest)) :
    ∃ fuel' n behind, readToken bs = some (.map n, behind) ∧
      decodeMany (decodePair (decode fuel')) n behind = some (entries, rest) := by
  cases fuel with
  | zero => exact absurd h.symm (Option.some_ne_none _)
  | succ fuel =>
      obtain ⟨⟨t, behind⟩, hread, hvalue⟩ := Option.bind_eq_some_iff.mp h
      cases t with
      | scalar s => exact Value.noConfusion (Prod.mk.inj (Option.some.inj hvalue)).1
      | array n =>
          obtain ⟨_, _, hq⟩ := Option.map_eq_some_iff.mp hvalue
          exact Value.noConfusion (Prod.mk.inj hq).1
      | map n =>
          obtain ⟨⟨entries', rest'⟩, hmany, hq⟩ := Option.map_eq_some_iff.mp hvalue
          obtain ⟨hentries, rfl⟩ := Prod.mk.inj hq
          obtain rfl := Value.map.inj hentries
          exact ⟨fuel, n, behind, hread, hmany⟩

/-- An entry was at least as long as its key and its value. -/
lemma minBytes_decodePair_le {fuel : ℕ} {bs rest : List UInt8} {e : Scalar × Scalar}
    (h : decodePair (decode fuel) bs = some ((.scalar e.1, .scalar e.2), rest)) :
    pairMinBytes e + rest.length ≤ bs.length := by
  obtain ⟨⟨key, behind⟩, hkey, hmapped⟩ := Option.bind_eq_some_iff.mp h
  obtain ⟨⟨value, rest'⟩, hvalue, heq⟩ := Option.map_eq_some_iff.mp hmapped
  dsimp only at hvalue heq
  obtain ⟨hpair, rfl⟩ := Prod.mk.inj heq
  obtain ⟨rfl, rfl⟩ := Prod.mk.inj hpair
  have hkeyLe := minBytes_readToken_le (readToken_of_decode hkey)
  have hvalueLe := minBytes_readToken_le (readToken_of_decode hvalue)
  rw [pairMinBytes]
  omega

/-- Entries were at least as long as their keys and values. -/
lemma minBytes_decodeMany_le {fuel n : ℕ} {bs rest : List UInt8} {es : List (Scalar × Scalar)}
    (h : decodeMany (decodePair (decode fuel)) n bs =
      some (es.map fun e => (.scalar e.1, .scalar e.2), rest)) :
    es.length = n ∧ (es.map pairMinBytes).sum + rest.length ≤ bs.length := by
  induction n generalizing bs es with
  | zero =>
      obtain ⟨hes, rfl⟩ := Prod.mk.inj (Option.some.inj h)
      obtain rfl := List.map_eq_nil_iff.mp hes.symm
      exact ⟨rfl, le_of_eq (Nat.zero_add _)⟩
  | succ n ih =>
      obtain ⟨⟨pair, behind⟩, hpair, hmapped⟩ := Option.bind_eq_some_iff.mp h
      obtain ⟨⟨pairs, rest'⟩, hmany, heq⟩ := Option.map_eq_some_iff.mp hmapped
      dsimp only at hmany heq
      obtain ⟨hpairs, rfl⟩ := Prod.mk.inj heq
      cases es with
      | nil => exact absurd hpairs (List.cons_ne_nil _ _)
      | cons e es =>
          obtain ⟨rfl, rfl⟩ := List.cons.inj hpairs
          obtain ⟨hlength, hrest⟩ := ih hmany
          have hentry := minBytes_decodePair_le hpair
          rw [List.length_cons, List.map_cons, List.sum_cons]
          omega

/-- **A representation of a map of scalars was at least as long as its header, keys and values.** -/
lemma minBytes_decodeAll_le {bs : List UInt8} {es : List (Scalar × Scalar)}
    (h : decodeAll bs = some (.map (es.map fun e => (.scalar e.1, .scalar e.2)))) :
    (Token.map es.length).minBytes + (es.map pairMinBytes).sum ≤ bs.length := by
  unfold decodeAll at h
  split at h
  · rename_i v hdecode
    obtain rfl := Option.some.inj h
    obtain ⟨_, n, behind, hread, hmany⟩ := decode_eq_map hdecode
    obtain ⟨rfl, hentries⟩ := minBytes_decodeMany_le hmany
    have hheader := minBytes_readToken_le hread
    rw [List.length_nil] at hentries
    omega
  · exact absurd h.symm (Option.some_ne_none _)

end LumbreExt.Lib.MsgPack
