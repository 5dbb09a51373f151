import LumbreExt.Span.Account
import LumbreExt.Span.Encode

/-!
# The two truncations of a query

A database query is cut twice with the same setting: by the setter, when the hook hands it over, and
by the finish. The finish reads a limit of `0` as "no limit"; the setter cuts to it.

* `LumbreSpan.fillDb` — the database payload with the whole query.
* `LumbreSpan.recordedQueryLen_setDb_iff` — on the lengths, the two clamps in a row agree with the
  clamp of the finish alone unless the limit is `0` and there is a query.
* `LumbreSpan.Lost` — the guards of the encoder and of the ring, on the span and the ring alone:
  nothing of the span is recorded.
* `FinishResult.recordedQuery` — the query of the span whose payload the ring takes, which is what the
  payload says (`recordedQuery_mem_payload`).
* `recordedQuery_setDb_iff` — the same for what two finishes record.
-/

namespace LumbreExt

open Lib Lib.MsgPack

/-! ## The two clamps -/

namespace LumbreSpan

/-- The database payload with the whole query: what the setter stores under a limit that does not
apply. -/
def fillDb (span : LumbreSpan) (query : BytePtr) (queryLen : UInt32) (dbType : BytePtr)
    (dbTypeLen rowsAffected : UInt32) : LumbreSpan :=
  { span with query, queryLen, dbType, dbTypeLen, rowsAffected }

section clamps

variable (span : LumbreSpan) (query dbType : BytePtr) (queryLen dbTypeLen rowsAffected : UInt32)
  (maxQueryLen : UInt32)

/-- The setter cuts the query, also to a limit of `0`. -/
lemma setDb_eq_fillDb :
    lumbreSpanSetDb span query queryLen dbType dbTypeLen rowsAffected maxQueryLen =
      span.fillDb query (if queryLen > maxQueryLen then maxQueryLen else queryLen) dbType dbTypeLen
        rowsAffected := rfl

/-- The setter keeps the shorter of the two. -/
lemma toNat_setDb_queryLen :
    (lumbreSpanSetDb span query queryLen dbType dbTypeLen rowsAffected maxQueryLen).queryLen.toNat =
      min queryLen.toNat maxQueryLen.toNat := by
  simp only [setDb_eq_fillDb, fillDb]
  split_ifs with hlong
  · have hlt := UInt32.lt_iff_toNat_lt.mp hlong
    omega
  · have hle := UInt32.le_iff_toNat_le.mp (UInt32.not_lt.mp hlong)
    omega

/-- A query within the limit is not cut again. -/
lemma truncatedQueryLen_of_le {span : LumbreSpan} {maxQueryLen : UInt32}
    (h : span.queryLen ≤ maxQueryLen) : span.truncatedQueryLen maxQueryLen = span.queryLen :=
  if_neg fun hlong => UInt32.not_lt.mpr h hlong.2.2

/-- The finish cuts nothing off what the setter has left. -/
lemma truncatedQueryLen_setDb :
    (lumbreSpanSetDb span query queryLen dbType dbTypeLen rowsAffected
        maxQueryLen).truncatedQueryLen maxQueryLen =
      (lumbreSpanSetDb span query queryLen dbType dbTypeLen rowsAffected maxQueryLen).queryLen := by
  apply truncatedQueryLen_of_le
  rw [UInt32.le_iff_toNat_le, toNat_setDb_queryLen]
  exact Nat.min_le_right _ _

/-- The finish cuts the query of a database span, but not to a limit of `0`. -/
lemma truncatedQueryLen_fillDb (htype : span.type = lumbreSpanDb) :
    (span.fillDb query queryLen dbType dbTypeLen rowsAffected).truncatedQueryLen maxQueryLen =
      if 0 < maxQueryLen ∧ maxQueryLen < queryLen then maxQueryLen else queryLen := by
  unfold truncatedQueryLen fillDb
  simp only [htype, true_and]

/-- **The two clamps in a row agree with the clamp of the finish alone, unless the limit is `0` and
there is a query.** -/
theorem recordedQueryLen_setDb_iff (htype : span.type = lumbreSpanDb) :
    (lumbreSpanSetDb span query queryLen dbType dbTypeLen rowsAffected
        maxQueryLen).truncatedQueryLen maxQueryLen =
      (span.fillDb query queryLen dbType dbTypeLen rowsAffected).truncatedQueryLen maxQueryLen ↔
    0 < maxQueryLen ∨ queryLen = 0 := by
  rw [truncatedQueryLen_setDb, truncatedQueryLen_fillDb span _ _ _ _ _ _ htype]
  simp only [setDb_eq_fillDb, fillDb]
  by_cases hlimit : 0 < maxQueryLen
  · refine iff_of_true ?_ (Or.inl hlimit)
    by_cases hlong : maxQueryLen < queryLen
    · rw [if_pos hlong, if_pos ⟨hlimit, hlong⟩]
    · have hshort : ¬ (0 < maxQueryLen ∧ maxQueryLen < queryLen) := fun h => hlong h.2
      rw [if_neg hlong, if_neg hshort]
  · have hzero : maxQueryLen = 0 := UInt32.le_zero_iff.mp (UInt32.not_lt.mp hlimit)
    have hwhole : ¬ (0 < maxQueryLen ∧ maxQueryLen < queryLen) := fun h => hlimit h.1
    rw [if_neg hwhole]
    by_cases hempty : queryLen = 0
    · refine iff_of_true ?_ (Or.inr hempty)
      rw [hzero, hempty, ite_self]
    · have hlong : queryLen > maxQueryLen := by
        rw [hzero]
        exact UInt32.pos_iff_ne_zero.mpr hempty
      rw [if_pos hlong, hzero]
      refine iff_of_false (Ne.symm hempty) ?_
      rintro (h | h)
      · exact UInt32.lt_irrefl 0 h
      · exact hempty h

end clamps

/-- The setter that has cut nothing the finish keeps leaves the same span to record. -/
lemma recorded_setDb {span : LumbreSpan} (htype : span.type = lumbreSpanDb) (query dbType : BytePtr)
    {queryLen : UInt32} (dbTypeLen rowsAffected : UInt32) {maxQueryLen : UInt32} (clockNs : UInt64)
    (h : 0 < maxQueryLen ∨ queryLen = 0) :
    (lumbreSpanSetDb span query queryLen dbType dbTypeLen rowsAffected maxQueryLen).recorded
        maxQueryLen clockNs =
      (span.fillDb query queryLen dbType dbTypeLen rowsAffected).recorded maxQueryLen clockNs := by
  rw [recorded, recorded, (span.recordedQueryLen_setDb_iff query dbType queryLen dbTypeLen
    rowsAffected maxQueryLen htype).mpr h]
  rfl

end LumbreSpan

/-! ## What is recorded -/

/-- Nothing of a span is recorded: it does not fit into a msgpack buffer of that capacity, or the
ring refuses its payload. -/
def LumbreSpan.Lost (span : LumbreSpan) (rb : LumbreRingbuf) (capacity : UInt64) : Prop :=
  Overflows capacity 0 span.items ∨ rb.Refuses (UInt32.ofNat (span.items.map Item.size).sum)

instance (span : LumbreSpan) (rb : LumbreRingbuf) (capacity : UInt64) :
    Decidable (span.Lost rb capacity) :=
  inferInstanceAs (Decidable (_ ∨ _))

/-- The query a finish records: that of the span whose payload the ring has taken. -/
def FinishResult.recordedQuery (r : FinishResult) : Option (List UInt8) :=
  if r.rc = 0 then some (r.span.query.bytes r.span.queryLen) else none

section finish

variable (span : LumbreSpan) (rb : LumbreRingbuf) (mpBuf : LumbreMsgpackBuf) (ctx : LumbreContext)
  (minDurationNs clockNs : UInt64) (maxQueryLen : UInt32)

/-- **A finish records the span unless it is filtered or lost.** -/
theorem recordedQuery_eq :
    (lumbreSpanFinish span rb mpBuf ctx minDurationNs maxQueryLen clockNs).recordedQuery =
      if span.Filtered minDurationNs clockNs ∨
          (span.recorded maxQueryLen clockNs).Lost rb mpBuf.capacity then none
      else some (span.query.bytes (span.truncatedQueryLen maxQueryLen)) := by
  rcases lumbreSpanFinish_cases span rb mpBuf ctx minDurationNs clockNs maxQueryLen with
    ⟨hfilter, hfinish⟩ | ⟨hkeep, rc, b, hencode, hrest⟩
  · rw [hfinish, if_pos (Or.inl hfilter)]
    rfl
  rw [lumbreSpanEncode_eq_packAll] at hencode
  have hzero := packAll_eq_zero_iff (span.recorded maxQueryLen clockNs).items
    (lumbreMsgpackReset mpBuf)
  rw [hencode] at hzero
  have hoverflows : Overflows mpBuf.capacity 0 (span.recorded maxQueryLen clockNs).items ↔
      ¬ rc = 0 := not_iff_not.mp (Iff.trans hzero.symm not_not.symm)
  rcases hrest with ⟨hover, hfinish⟩ | ⟨hfits, hfinish⟩
  · have hlost : (span.recorded maxQueryLen clockNs).Lost rb mpBuf.capacity :=
      Or.inl (hoverflows.mpr (Int.ne_of_lt hover))
    rw [hfinish, if_pos (Or.inr hlost)]
    rfl
  · have hrc := packAll_rc (span.recorded maxQueryLen clockNs).items (lumbreMsgpackReset mpBuf)
    rw [hencode] at hrc
    obtain rfl : rc = 0 := hrc.resolve_right (by dsimp only; omega)
    -- the length handed over is that of the items
    have hlength := packAll_pos (congrArg Prod.fst hencode)
    rw [hencode] at hlength
    change b.pos = 0 + UInt64.ofNat _ at hlength
    rw [UInt64.zero_add] at hlength
    have hcast : b.pos.toUInt32 =
        UInt32.ofNat ((span.recorded maxQueryLen clockNs).items.map Item.size).sum := by
      apply UInt32.toNat_inj.mp
      rw [hlength, UInt64.toNat_toUInt32, toNat_counter, UInt32.toNat_ofNat']
      exact Nat.mod_mod_of_dvd _ (by decide)
    have hwrite := lumbreRingbufWrite_eq_zero_iff rb b.buf b.pos.toUInt32
    have hnone : ¬ Overflows mpBuf.capacity 0 (span.recorded maxQueryLen clockNs).items :=
      fun h => hoverflows.mp h rfl
    have hlost : span.Filtered minDurationNs clockNs ∨
        (span.recorded maxQueryLen clockNs).Lost rb mpBuf.capacity ↔
          ¬ (lumbreRingbufWrite rb b.buf b.pos.toUInt32).1 = 0 := by
      rw [or_iff_right hkeep, LumbreSpan.Lost, or_iff_right hnone, hwrite, hcast, not_not]
    rw [hfinish]
    by_cases hrc : (lumbreRingbufWrite rb b.buf b.pos.toUInt32).1 = 0
    · rw [if_neg (mt hlost.mp (not_not.mpr hrc))]
      exact if_pos hrc
    · rw [if_pos (hlost.mpr hrc)]
      exact if_neg hrc

end finish

/-- **What a finish records is what the payload says.** -/
theorem recordedQuery_mem_payload {span : LumbreSpan} {rb : LumbreRingbuf}
    {mpBuf : LumbreMsgpackBuf} {ctx : LumbreContext} {minDurationNs clockNs : UInt64}
    {maxQueryLen : UInt32} {query : List UInt8} (htype : span.type = lumbreSpanDb)
    (hspan : span.WellFormed) (hcap : mpBuf.capacity.toNat < 2 ^ 32)
    (h : (lumbreSpanFinish span rb mpBuf ctx minDurationNs maxQueryLen clockNs).recordedQuery =
      some query) :
    ∃ payload fields,
      (lumbreSpanFinish span rb mpBuf ctx minDurationNs maxQueryLen clockNs).handed =
          some payload ∧
        decodeAll payload = some (.map fields) ∧
        (.scalar (.str (ascii "q")), .scalar (.str query)) ∈ fields := by
  have hfield : (ascii "q", Scalar.str (span.query.bytes (span.truncatedQueryLen maxQueryLen))) ∈
      (span.recorded maxQueryLen clockNs).fields := by
    have hdb : (span.recorded maxQueryLen clockNs).type = lumbreSpanDb := htype
    rw [LumbreSpan.fields, LumbreSpan.typeFields, hdb]
    exact List.mem_append_right _ List.mem_cons_self
  have hread : ∀ payload,
      (lumbreSpanFinish span rb mpBuf ctx minDurationNs maxQueryLen clockNs).handed =
        some payload → decodeAll payload = some _ := fun payload hpayload =>
    (decodeAll_handed hspan hcap hpayload).1
  rcases lumbreSpanFinish_cases span rb mpBuf ctx minDurationNs clockNs maxQueryLen with
    ⟨_, hfinish⟩ | ⟨_, _, b, _, ⟨_, hfinish⟩ | ⟨_, hfinish⟩⟩
  · rw [hfinish] at h
    exact absurd (h : none = some query) (Option.some_ne_none query).symm
  · rw [hfinish] at h
    exact absurd (h : none = some query) (Option.some_ne_none query).symm
  · rw [hfinish, FinishResult.recordedQuery] at h
    split_ifs at h
    obtain rfl := Option.some.inj h
    have hhanded := congrArg FinishResult.handed hfinish
    exact ⟨_, _, hhanded, hread _ hhanded, List.mem_map.mpr ⟨_, hfield, rfl⟩⟩

/-- A shorter stretch of valid memory is another byte string. -/
lemma BytePtr.Valid.bytes_inj {ptr : BytePtr} {len n m : UInt32} (h : ptr.Valid len) (hn : n ≤ len)
    (hm : m ≤ len) : ptr.bytes n = ptr.bytes m ↔ n = m := by
  have hvalid : ∀ {k : UInt32}, k ≤ len → ptr.Valid k := by
    intro k hk hpos
    exact h (Nat.lt_of_lt_of_le hpos (UInt32.le_iff_toNat_le.mp hk))
  constructor
  · intro heq
    apply UInt32.toNat_inj.mp
    rw [← (hvalid hn).bytes_length, ← (hvalid hm).bytes_length, heq]
  · intro heq
    rw [heq]

/-- The finish never records more than the span holds. -/
lemma LumbreSpan.truncatedQueryLen_le (span : LumbreSpan) (maxQueryLen : UInt32) :
    span.truncatedQueryLen maxQueryLen ≤ span.queryLen :=
  UInt32.le_iff_toNat_le.mpr (span.toNat_truncatedQueryLen_le maxQueryLen)

/-- **The two truncation paths agree unless the limit is `0`.** From the same ring and buffer, a
database span filled under the limit and one filled with the whole query record the same query
exactly when there is a limit, or no query, or nothing is recorded on either path. -/
theorem recordedQuery_setDb_iff {span : LumbreSpan} (htype : span.type = lumbreSpanDb)
    {query : BytePtr} {queryLen : UInt32} (hquery : query.Valid queryLen) (dbType : BytePtr)
    (dbTypeLen rowsAffected maxQueryLen : UInt32) (rb : LumbreRingbuf) (mpBuf : LumbreMsgpackBuf)
    (ctx ctx' : LumbreContext) (minDurationNs clockNs : UInt64) :
    (lumbreSpanFinish (lumbreSpanSetDb span query queryLen dbType dbTypeLen rowsAffected maxQueryLen)
        rb mpBuf ctx minDurationNs maxQueryLen clockNs).recordedQuery =
      (lumbreSpanFinish (span.fillDb query queryLen dbType dbTypeLen rowsAffected)
        rb mpBuf ctx' minDurationNs maxQueryLen clockNs).recordedQuery ↔
    0 < maxQueryLen ∨ queryLen = 0 ∨ span.Filtered minDurationNs clockNs ∨
      ((lumbreSpanSetDb span query queryLen dbType dbTypeLen rowsAffected maxQueryLen).recorded
          maxQueryLen clockNs).Lost rb mpBuf.capacity ∧
        ((span.fillDb query queryLen dbType dbTypeLen rowsAffected).recorded
          maxQueryLen clockNs).Lost rb mpBuf.capacity := by
  obtain ⟨set, hset⟩ : ∃ set, set =
      lumbreSpanSetDb span query queryLen dbType dbTypeLen rowsAffected maxQueryLen := ⟨_, rfl⟩
  obtain ⟨whole, hwhole⟩ : ∃ whole, whole =
      span.fillDb query queryLen dbType dbTypeLen rowsAffected := ⟨_, rfl⟩
  have hfiltered : (set.Filtered minDurationNs clockNs ↔ span.Filtered minDurationNs clockNs) ∧
      (whole.Filtered minDurationNs clockNs ↔ span.Filtered minDurationNs clockNs) := by
    rw [hset, hwhole]
    exact ⟨Iff.rfl, Iff.rfl⟩
  have hqueries : set.query = query ∧ whole.query = query := by
    rw [hset, hwhole]
    exact ⟨rfl, rfl⟩
  have hclamps : set.truncatedQueryLen maxQueryLen = whole.truncatedQueryLen maxQueryLen ↔
      0 < maxQueryLen ∨ queryLen = 0 := by
    rw [hset, hwhole]
    exact span.recordedQueryLen_setDb_iff query dbType queryLen dbTypeLen rowsAffected maxQueryLen
      htype
  have hbytes : query.bytes (set.truncatedQueryLen maxQueryLen) =
      query.bytes (whole.truncatedQueryLen maxQueryLen) ↔ 0 < maxQueryLen ∨ queryLen = 0 := by
    have hsetLe : set.truncatedQueryLen maxQueryLen ≤ queryLen := by
      rw [hset, LumbreSpan.truncatedQueryLen_setDb, UInt32.le_iff_toNat_le,
        LumbreSpan.toNat_setDb_queryLen]
      exact Nat.min_le_left _ _
    have hwholeLe : whole.truncatedQueryLen maxQueryLen ≤ queryLen := by
      have hle := whole.truncatedQueryLen_le maxQueryLen
      rwa [hwhole] at hle ⊢
    rw [hquery.bytes_inj hsetLe hwholeLe, hclamps]
  rw [← hset, ← hwhole, recordedQuery_eq, recordedQuery_eq, hqueries.1, hqueries.2]
  by_cases hfilter : span.Filtered minDurationNs clockNs
  · rw [if_pos (Or.inl (hfiltered.1.mpr hfilter)), if_pos (Or.inl (hfiltered.2.mpr hfilter))]
    exact iff_of_true rfl (Or.inr (Or.inr (Or.inl hfilter)))
  simp only [or_iff_right hfilter, or_iff_right (mt hfiltered.1.mp hfilter),
    or_iff_right (mt hfiltered.2.mp hfilter)]
  by_cases hsame : 0 < maxQueryLen ∨ queryLen = 0
  · have hrecorded : set.recorded maxQueryLen clockNs = whole.recorded maxQueryLen clockNs := by
      rw [hset, hwhole]
      exact LumbreSpan.recorded_setDb htype query dbType dbTypeLen rowsAffected clockNs hsame
    rw [hrecorded, hbytes.mpr hsame]
    exact iff_of_true rfl (hsame.imp_right Or.inl)
  · -- without a limit and with a query the two bytes differ, and only a loss of both hides it
    have hdiffer := mt hbytes.mp hsame
    rw [← or_assoc, or_iff_right hsame]
    by_cases hsetLost : (set.recorded maxQueryLen clockNs).Lost rb mpBuf.capacity
    · by_cases hwholeLost : (whole.recorded maxQueryLen clockNs).Lost rb mpBuf.capacity
      · rw [if_pos hsetLost, if_pos hwholeLost]
        exact iff_of_true rfl ⟨hsetLost, hwholeLost⟩
      · rw [if_pos hsetLost, if_neg hwholeLost]
        exact iff_of_false (Option.some_ne_none _).symm fun h => hwholeLost h.2
    · rw [if_neg hsetLost]
      refine iff_of_false ?_ fun h => hsetLost h.1
      by_cases hwholeLost : (whole.recorded maxQueryLen clockNs).Lost rb mpBuf.capacity
      · rw [if_pos hwholeLost]
        exact Option.some_ne_none _
      · rw [if_neg hwholeLost]
        exact fun h => hdiffer (Option.some.inj h)

/-- What a finish under a limit records of a database span filled by `fill`, with a fresh ring and
buffer of the sizes the module uses. -/
def finishedQuery (fill : LumbreSpan → LumbreSpan) (maxQueryLen : UInt32) : Option (List UInt8) :=
  (lumbreSpanFinish (fill { zeroSpan with type := lumbreSpanDb }) (freshRing 4194304)
    ⟨fun _ => 0, 16384, 0, []⟩ ⟨zeroTraceId, 1, 2, 3, 1, 0⟩ 0 maxQueryLen 350).recordedQuery

/-- A limit of `6` on a query of eight bytes: both paths record its first six. -/
theorem recordedQuery_setDb_iff_six :
    finishedQuery (fun span => lumbreSpanSetDb span (literal "SELECT 1") 8 (literal "pdo") 3 0 6) 6 =
        some (ascii "SELECT") ∧
      finishedQuery (fun span => lumbreSpanSetDb span (literal "SELECT 1") 8 (literal "pdo") 3 0 6)
          6 =
        finishedQuery (fun span => span.fillDb (literal "SELECT 1") 8 (literal "pdo") 3 0) 6 :=
  ⟨by decide +kernel, (recordedQuery_setDb_iff rfl (fun _ => rfl) _ _ _ _ _ _ _ _ _ _).mpr
    (Or.inl (by decide))⟩

/-- Without a limit the hook records no byte of the query, and the finish the whole of it. -/
theorem recordedQuery_setDb_limit_zero :
    finishedQuery (fun span => lumbreSpanSetDb span (literal "SELECT 1") 8 (literal "pdo") 3 0 0) 0 =
        some [] ∧
      finishedQuery (fun span => span.fillDb (literal "SELECT 1") 8 (literal "pdo") 3 0) 0 =
        some (ascii "SELECT 1") ∧
      finishedQuery (fun span => lumbreSpanSetDb span (literal "SELECT 1") 8 (literal "pdo") 3 0 0)
          0 ≠
        finishedQuery (fun span => span.fillDb (literal "SELECT 1") 8 (literal "pdo") 3 0) 0 :=
  ⟨by decide +kernel, by decide +kernel, by decide +kernel⟩

end LumbreExt
