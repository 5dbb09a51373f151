import LumbreExt.Lib.Ascii
import LumbreExt.Module.Lifecycle

/-!
# Propagation of the trace id

The `X-Trace-Id` header decides the trace id of the request, or does not influence it at all.

* `lumbreHexToBinInto`, `RequestEnv.propagatedFrom` — the parser and the block of RINIT that calls it,
  with the bytes of the destination: those it held before, and those written before a digit is
  refused.
* `lumbreHexToBinInto_cases` — what is accepted, what it denotes, and that the two parsers agree on it;
  `RequestEnv.propagatedFrom_eq` — the uninitialised bytes never get out.
* `Process.phpRinit_traceId` — the trace id RINIT leaves behind.
* `traceId_propagation` — the result.
-/

namespace LumbreExt

open Lib

/-! ## The parser with its destination -/

/-- The loop of `lumbre_hex_to_bin` from digit `2 * i` on, with the bytes of `out`. -/
def hexPairsInto : List UInt8 → ℕ → Mem → ℤ × Mem
  | hi :: lo :: hex, i, out =>
      match hexDigit hi, hexDigit lo with
      | some h, some l => hexPairsInto hex (i + 1) (out.store (i, (h <<< 4) ||| l))
      | _, _ => (-1, out)
  | _, _, out => (0, out)

/-- `lumbre_hex_to_bin` with what it leaves in `out`, whatever it returns.
Source: `php_lumbre.c`, `lumbre_hex_to_bin` -/
def lumbreHexToBinInto (hex : List UInt8) (out : Mem) (outLen : ℕ) : ℤ × Mem :=
  if hex.length ≠ outLen * 2 then (-1, out) else hexPairsInto hex 0 out

/-- The block of RINIT that looks for the header; `propagatedId` is what the uninitialised
`propagated_id` happens to hold.
Source: `php_lumbre.c`, `PHP_RINIT_FUNCTION(lumbre)` -/
def RequestEnv.propagatedFrom (env : RequestEnv) (propagatedId : Mem) : Option TraceId :=
  match env.serverVar (ascii "HTTP_X_TRACE_ID") with
  | some (.string hex) =>
      if hex.length = 32 then
        let r := lumbreHexToBinInto hex propagatedId 16
        if r.1 = 0 then some (TraceId.ofList (r.2.load 0 16)) else none
      else none
  | _ => none

/-! ## Digits and pairs -/

/-- A digit is read as the number it stands for; nothing else is. -/
lemma hexDigit_cases (c : UInt8) :
    (IsHexDigit c ∧ ∃ v, hexDigit c = some v ∧ v.toNat < 16 ∧ hexChar v.toNat = lower c) ∨
      (¬ IsHexDigit c ∧ hexDigit c = none) := by
  have hvalue := forall_byte (P := fun c => (hexDigit c).all fun v =>
    v.toNat < 16 ∧ hexChar v.toNat = lower c) (by decide +kernel) c
  have hsome := forall_byte (P := fun c => (hexDigit c).isSome ↔ IsHexDigit c) (by decide +kernel) c
  cases hdigit : hexDigit c with
  | none =>
      rw [hdigit, Option.isSome_none] at hsome
      exact Or.inr ⟨fun h => Bool.false_ne_true (hsome.mpr h), rfl⟩
  | some v =>
      rw [hdigit] at hsome hvalue
      rw [Option.all_some, decide_eq_true_eq] at hvalue
      exact Or.inl ⟨hsome.mp rfl, v, rfl, hvalue⟩

/-- Two numbers below 16 shifted together. -/
lemma shiftLeft_or_eq {h l : UInt8} (hh : h.toNat < 16) (hl : l.toNat < 16) :
    (h <<< 4) ||| l = UInt8.ofNat (16 * h.toNat + l.toNat) := by
  have hall : ∀ m < 16, ∀ n < 16,
      (UInt8.ofNat m <<< 4) ||| UInt8.ofNat n = UInt8.ofNat (16 * m + n) := by
    decide
  have hbyte := hall _ hh _ hl
  rwa [UInt8.ofNat_toNat, UInt8.ofNat_toNat] at hbyte

/-- **The loop reads all pairs of digits, or meets a byte that is none.** -/
lemma hexPairsInto_cases {hex : List UInt8} (heven : hex.length % 2 = 0) (i : ℕ) (out : Mem) :
    ((∀ c ∈ hex, IsHexDigit c) ∧ ∃ bytes, hexPairs hex = some bytes ∧
        encodeHex bytes = hex.map lower ∧
        hexPairsInto hex i out = (0, out.storeAll (copyStores i bytes))) ∨
      (¬ (∀ c ∈ hex, IsHexDigit c) ∧ hexPairs hex = none ∧ (hexPairsInto hex i out).1 = -1) := by
  induction hex using hexPairs.induct generalizing i out with
  | case1 => exact Or.inl ⟨by simp, [], rfl, rfl, rfl⟩
  | case2 c => simp at heven
  | case3 hi lo hex h l hlo hhi ih =>
      have heven' : hex.length % 2 = 0 := by
        simp only [List.length_cons] at heven
        omega
      rcases hexDigit_cases hi with ⟨hhiDigit, h', hh', hhLt, hhChar⟩ | ⟨_, hnone⟩
      swap
      · exact absurd (hhi.symm.trans hnone) (Option.some_ne_none h)
      rcases hexDigit_cases lo with ⟨hloDigit, l', hl', hlLt, hlChar⟩ | ⟨_, hnone⟩
      swap
      · exact absurd (hlo.symm.trans hnone) (Option.some_ne_none l)
      obtain rfl : h = h' := Option.some.inj (hhi.symm.trans hh')
      obtain rfl : l = l' := Option.some.inj (hlo.symm.trans hl')
      have hall : (∀ c ∈ hi :: lo :: hex, IsHexDigit c) ↔ ∀ c ∈ hex, IsHexDigit c := by
        simp [hhiDigit, hloDigit]
      rw [hexPairsInto, hexPairs, hhi, hlo, hall]
      rcases ih heven' (i + 1) (out.store (i, (h <<< 4) ||| l)) with
        ⟨hdigits, bytes, hpairs, hencode, hloop⟩ | ⟨hnot, hpairs, hloop⟩
      · refine Or.inl ⟨hdigits, ((h <<< 4) ||| l) :: bytes, ?_, ?_, ?_⟩
        · simp only [hpairs, Option.map_some]
        · rw [shiftLeft_or_eq hhLt hlLt, encodeHex_cons_of_digits hhLt hlLt hhChar hlChar, hencode]
          rfl
        · simp only [hloop]
          rfl
      · refine Or.inr ⟨hnot, ?_, hloop⟩
        simp only [hpairs, Option.map_none]
  | case4 hi lo hex hnone =>
      have hnot : ¬ (IsHexDigit hi ∧ IsHexDigit lo) := by
        rintro ⟨hhi, hlo⟩
        rcases hexDigit_cases hi with ⟨_, h, hh, _⟩ | ⟨hbad, _⟩
        swap
        · exact hbad hhi
        rcases hexDigit_cases lo with ⟨_, l, hl, _⟩ | ⟨hbad, _⟩
        · exact hnone h l hh hl
        · exact hbad hlo
      right
      refine ⟨fun hall => hnot ⟨hall hi (by simp), hall lo (by simp)⟩, ?_, ?_⟩
      · rw [hexPairs]
        split
        · rename_i h l hh hl
          exact (hnone h l hh hl).elim
        · rfl
      · rw [hexPairsInto]
        split
        · rename_i h l hh hl
          exact (hnone h l hh hl).elim
        · rfl

/-! ## What is accepted -/

/-- **The parser accepts exactly the pairs of digits it was asked for**, and leaves in the
destination the bytes they denote. -/
lemma lumbreHexToBinInto_cases (hex : List UInt8) (out : Mem) (outLen : ℕ) :
    (hex.length = 2 * outLen ∧ (∀ c ∈ hex, IsHexDigit c) ∧
        ∃ bytes, bytes.length = outLen ∧ encodeHex bytes = hex.map lower ∧
          lumbreHexToBin hex outLen = some bytes ∧
          lumbreHexToBinInto hex out outLen = (0, out.storeAll (copyStores 0 bytes))) ∨
      (¬ (hex.length = 2 * outLen ∧ ∀ c ∈ hex, IsHexDigit c) ∧
        lumbreHexToBin hex outLen = none ∧ (lumbreHexToBinInto hex out outLen).1 = -1) := by
  unfold lumbreHexToBinInto lumbreHexToBin
  by_cases hlength : hex.length = 2 * outLen
  · have hsame : ¬ hex.length ≠ outLen * 2 := by omega
    rw [if_neg hsame, if_neg hsame]
    have heven : hex.length % 2 = 0 := by omega
    rcases hexPairsInto_cases heven 0 out with
      ⟨hdigits, bytes, hpairs, hencode, hloop⟩ | ⟨hnot, hpairs, hloop⟩
    · refine Or.inl ⟨hlength, hdigits, bytes, ?_, hencode, hpairs, hloop⟩
      have hlen := congrArg List.length hencode
      rw [length_encodeHex, List.length_map] at hlen
      omega
    · exact Or.inr ⟨fun h => hnot h.2, hpairs, hloop⟩
  · have hother : hex.length ≠ outLen * 2 := by omega
    rw [if_pos hother, if_pos hother]
    exact Or.inr ⟨fun h => hlength h.1, rfl, rfl⟩

/-- The bytes of an accepted string are in the destination. -/
lemma load_lumbreHexToBinInto {hex : List UInt8} {out : Mem} {outLen : ℕ}
    (h : (lumbreHexToBinInto hex out outLen).1 = 0) :
    ∃ bytes, lumbreHexToBin hex outLen = some bytes ∧ encodeHex bytes = hex.map lower ∧
      (lumbreHexToBinInto hex out outLen).2.load 0 outLen = bytes := by
  rcases lumbreHexToBinInto_cases hex out outLen with
    ⟨_, _, bytes, hlength, hencode, hbytes, hinto⟩ | ⟨_, _, hrc⟩
  · refine ⟨bytes, hbytes, hencode, ?_⟩
    rw [hinto, ← hlength]
    exact Mem.load_storeAll_copyStores out 0 bytes
  · rw [hrc] at h
    exact absurd h (by decide)

/-! ## The request -/

/-- The header is there and is 32 digits. -/
def RequestEnv.HasTraceId (env : RequestEnv) (hex : List UInt8) : Prop :=
  env.serverVar (ascii "HTTP_X_TRACE_ID") = some (.string hex) ∧ hex.length = 2 * 16 ∧
    ∀ c ∈ hex, IsHexDigit c

/-- A header with another value is none. -/
lemma RequestEnv.not_hasTraceId {env : RequestEnv} {header : List UInt8}
    (hvar : env.serverVar (ascii "HTTP_X_TRACE_ID") = some (.string header))
    (h : ¬ (header.length = 2 * 16 ∧ ∀ c ∈ header, IsHexDigit c)) :
    ¬ ∃ hex, env.HasTraceId hex := by
  rintro ⟨hex, hhex, hformed⟩
  obtain rfl : header = hex := Zval.string.inj (Option.some.inj (hvar.symm.trans hhex))
  exact h hformed

/-- The request with other server variables. -/
def RequestEnv.withServerVars (env : RequestEnv)
    (vars : Option (List (List UInt8 × Zval))) : RequestEnv :=
  { env with serverVars := vars }

/-- Sixteen bytes are the bytes of their trace id. -/
lemma TraceId.toList_ofList {bytes : List UInt8} (h : bytes.length = 16) :
    (TraceId.ofList bytes).toList = bytes := by
  apply List.ext_getElem
  · rw [Vector.length_toList, h]
  · intro i hi hi'
    simp [TraceId.ofList, hi']

/-- The block of RINIT hands on what the parser accepted, and none of the bytes `propagated_id` held
or the parser wrote before it refused. -/
lemma RequestEnv.propagatedFrom_eq (env : RequestEnv) (propagatedId : Mem) :
    env.propagatedFrom propagatedId = env.propagated := by
  unfold RequestEnv.propagatedFrom RequestEnv.propagated
  cases env.serverVar (ascii "HTTP_X_TRACE_ID") with
  | none => rfl
  | some value =>
      cases value with
      | other => rfl
      | string hex =>
          dsimp only
          by_cases hlength : hex.length = 32
          · rw [if_pos hlength, if_pos hlength]
            by_cases hrc : (lumbreHexToBinInto hex propagatedId 16).1 = 0
            · obtain ⟨bytes, hbytes, _, hload⟩ := load_lumbreHexToBinInto hrc
              rw [if_pos hrc, hload, hbytes, Option.map_some]
            · rcases lumbreHexToBinInto_cases hex propagatedId 16 with
                ⟨_, _, _, _, _, _, hinto⟩ | ⟨_, hnone, _⟩
              · rw [hinto] at hrc
                exact absurd rfl hrc
              · rw [if_neg hrc, hnone, Option.map_none]
          · rw [if_neg hlength, if_neg hlength]

/-- A well-formed header is decoded. -/
lemma RequestEnv.HasTraceId.propagated {env : RequestEnv} {hex : List UInt8}
    (h : env.HasTraceId hex) :
    ∃ id, env.propagated = some id ∧ encodeHex id.toList = hex.map lower := by
  obtain ⟨hvar, hlength, hdigits⟩ := h
  rcases lumbreHexToBinInto_cases hex (fun _ => 0) 16 with
    ⟨_, _, bytes, hlen, hencode, hbytes, _⟩ | ⟨hnot, _⟩
  · refine ⟨TraceId.ofList bytes, ?_, ?_⟩
    · have hlength' : hex.length = 32 := hlength
      simp only [RequestEnv.propagated, hvar, if_pos hlength', hbytes, Option.map_some]
    · rw [TraceId.toList_ofList hlen, hencode]
  · exact absurd ⟨hlength, hdigits⟩ hnot

/-- Any other header is ignored. -/
lemma RequestEnv.propagated_eq_none {env : RequestEnv} (h : ¬ ∃ hex, env.HasTraceId hex) :
    env.propagated = none := by
  unfold RequestEnv.propagated
  split
  · rename_i hex hvar
    by_cases hlength : hex.length = 32
    · rw [if_pos hlength]
      rcases lumbreHexToBinInto_cases hex (fun _ => 0) 16 with ⟨hlen, hdigits, _⟩ | ⟨_, hnone, _⟩
      · exact absurd ⟨hex, hvar, hlen, hdigits⟩ h
      · rw [hnone, Option.map_none]
    · rw [if_neg hlength]
  · rfl

/-! ## RINIT -/

namespace Process

/-- The worker behind the lazy initialisation, if one is due. -/
def ready (p : Process) (env : RequestEnv) : Process :=
  if p.g.ringbufInitialized = 0 then p.lazyInit env else p

/-- The module is on and the ring is open behind the lazy initialisation: RINIT goes on to give the
request a context. -/
def Opens (p : Process) (env : RequestEnv) : Prop :=
  p.g.enabled ≠ 0 ∧ (p.ready env).g.ringbufInitialized ≠ 0

instance (p : Process) (env : RequestEnv) : Decidable (p.Opens env) :=
  inferInstanceAs (Decidable (_ ∧ _))

/-- The trace id the context is initialised with. -/
lemma initContext_traceId (p : Process) (env : RequestEnv) :
    (p.initContext env).g.ctx.traceId =
      env.propagated.getD (env.randomBytes.getD p.g.ctx.traceId) := by
  have hinit : (lumbreContextInit p.g.ctx env.propagated
      (some (lumbrePhpRandomBytes env))).traceId =
        env.propagated.getD (env.randomBytes.getD p.g.ctx.traceId) := by
    unfold lumbreContextInit lumbrePhpRandomBytes
    cases env.propagated with
    | some id => rfl
    | none => cases env.randomBytes <;> rfl
  rw [← hinit]
  unfold initContext
  dsimp only
  split_ifs <;> rfl

lemma startRoot_traceId (clock : Clock) (p : Process) (env : RequestEnv) :
    (p.startRoot clock env).g.ctx.traceId = p.g.ctx.traceId := by
  obtain ⟨root, _, hroot⟩ := startRoot_eq clock p env
  rw [hroot]
  rfl

lemma ready_ctx (p : Process) (env : RequestEnv) : (p.ready env).g.ctx = p.g.ctx := by
  unfold ready
  split_ifs
  · exact (sameRequest_lazyInit p env).ctx
  · rfl

/-- RINIT gives the request a context, or leaves the one that was there. -/
lemma phpRinit_ready (clock : Clock) (p : Process) (env : RequestEnv) :
    (p.Opens env ∧ p.phpRinit clock env = ((p.ready env).initContext env).startRoot clock env) ∨
      (¬ p.Opens env ∧ (p.phpRinit clock env).g.ctx = p.g.ctx) := by
  have hrinit : p.phpRinit clock env =
      if p.g.enabled = 0 then p
      else if (p.ready env).g.ringbufInitialized = 0 then p.ready env
      else ((p.ready env).initContext env).startRoot clock env := rfl
  rw [hrinit]
  by_cases henabled : p.g.enabled = 0
  · rw [if_pos henabled]
    exact Or.inr ⟨fun h => h.1 henabled, rfl⟩
  rw [if_neg henabled]
  by_cases hclosed : (p.ready env).g.ringbufInitialized = 0
  · rw [if_pos hclosed]
    exact Or.inr ⟨fun h => h.2 hclosed, p.ready_ctx env⟩
  · rw [if_neg hclosed]
    exact Or.inl ⟨⟨henabled, hclosed⟩, rfl⟩

/-- **The trace id of a request with a context**: the propagated one, else the random bytes, else
what was there. -/
lemma phpRinit_traceId {p : Process} {env : RequestEnv} (h : p.Opens env) (clock : Clock) :
    (p.phpRinit clock env).g.ctx.traceId =
      env.propagated.getD (env.randomBytes.getD p.g.ctx.traceId) := by
  rcases p.phpRinit_ready clock env with ⟨_, hrinit⟩ | ⟨hnot, _⟩
  · rw [hrinit, startRoot_traceId, initContext_traceId, ready_ctx]
  · exact absurd h hnot

/-- **A header that is ignored leaves no trace**: without one, the trace id does not depend on the
server variables. -/
lemma phpRinit_traceId_congr (clock : Clock) (p : Process) (env : RequestEnv)
    {vars vars' : Option (List (List UInt8 × Zval))}
    (h : (env.withServerVars vars).propagated = none)
    (h' : (env.withServerVars vars').propagated = none) :
    (p.phpRinit clock (env.withServerVars vars)).g.ctx.traceId =
      (p.phpRinit clock (env.withServerVars vars')).g.ctx.traceId := by
  -- the lazy initialisation does not read the server variables
  have hopens : p.Opens (env.withServerVars vars) ↔ p.Opens (env.withServerVars vars') := Iff.rfl
  by_cases hopen : p.Opens (env.withServerVars vars)
  · rw [phpRinit_traceId hopen, phpRinit_traceId (hopens.mp hopen), h, h']
    rfl
  · rcases p.phpRinit_ready clock (env.withServerVars vars) with ⟨hyes, _⟩ | ⟨_, hctx⟩
    · exact absurd hyes hopen
    rcases p.phpRinit_ready clock (env.withServerVars vars') with ⟨hyes, _⟩ | ⟨_, hctx'⟩
    · exact absurd (hopens.mpr hyes) hopen
    rw [hctx, hctx']

end Process

/-- **Trace-id propagation accepts exactly the well-formed ids, and ignores all others.**

The parser returns `0` exactly for `2 * outLen` hexadecimal digits, and then its result written out in
lower case is the string in lower case. Behind RINIT the trace id of a request with a context is the
decoding of a well-formed header; any two requests that differ in their server variables only, and
neither of which has such a header, get the same one. What `propagated_id` held, and what the parser
wrote to it before it refused, plays no part. -/
theorem traceId_propagation :
    (∀ (hex : List UInt8) (out : Mem) (outLen : ℕ),
      ((lumbreHexToBinInto hex out outLen).1 = 0 ↔
        hex.length = 2 * outLen ∧ ∀ c ∈ hex, IsHexDigit c) ∧
      ((lumbreHexToBinInto hex out outLen).1 = 0 →
        encodeHex ((lumbreHexToBinInto hex out outLen).2.load 0 outLen) = hex.map lower)) ∧
    (∀ (clock : Clock) (p : Process) (env : RequestEnv) (hex : List UInt8),
      p.Opens env → env.HasTraceId hex →
        encodeHex (p.phpRinit clock env).g.ctx.traceId.toList = hex.map lower) ∧
    (∀ (clock : Clock) (p : Process) (env : RequestEnv)
        (vars vars' : Option (List (List UInt8 × Zval))),
      (¬ ∃ hex, (env.withServerVars vars).HasTraceId hex) →
      (¬ ∃ hex, (env.withServerVars vars').HasTraceId hex) →
        (p.phpRinit clock (env.withServerVars vars)).g.ctx.traceId =
          (p.phpRinit clock (env.withServerVars vars')).g.ctx.traceId) ∧
    ∀ (env : RequestEnv) (propagatedId : Mem), env.propagatedFrom propagatedId = env.propagated := by
  refine ⟨?_, ?_, ?_, RequestEnv.propagatedFrom_eq⟩
  · intro hex out outLen
    constructor
    · rcases lumbreHexToBinInto_cases hex out outLen with
        ⟨hlength, hdigits, _, _, _, _, hinto⟩ | ⟨hnot, _, hrc⟩
      · exact iff_of_true (by rw [hinto]) ⟨hlength, hdigits⟩
      · exact iff_of_false (by rw [hrc]; decide) hnot
    · intro hrc
      obtain ⟨bytes, _, hencode, hload⟩ := load_lumbreHexToBinInto hrc
      rw [hload, hencode]
  · intro clock p env hex hopens hheader
    obtain ⟨id, hid, hencode⟩ := hheader.propagated
    rw [Process.phpRinit_traceId hopens, hid]
    exact hencode
  · intro clock p env vars vars' h h'
    exact p.phpRinit_traceId_congr clock env (RequestEnv.propagated_eq_none h)
      (RequestEnv.propagated_eq_none h')

/-- A request with this `X-Trace-Id`. -/
def requestWithTraceId (header : String) : RequestEnv :=
  Worker.plainRequest.withServerVars (some [(ascii "HTTP_X_TRACE_ID", .string (ascii header))])

/-- A header in mixed case is decoded; two headers that go wrong at the last digit leave the same
trace id. -/
theorem traceId_propagation_headers :
    encodeHex (Worker.shipped.proc.phpRinit (fun _ => 0)
        (requestWithTraceId "00112233445566778899AABBccddeeff")).g.ctx.traceId.toList =
      (ascii "00112233445566778899AABBccddeeff").map lower ∧
    (Worker.shipped.proc.phpRinit (fun _ => 0)
        (requestWithTraceId "00112233445566778899AABBccddeefg")).g.ctx.traceId =
      (Worker.shipped.proc.phpRinit (fun _ => 0)
        (requestWithTraceId "fedcba98765432100123456789abcde-")).g.ctx.traceId := by
  obtain ⟨_, hdecode, hignore, _⟩ := traceId_propagation
  refine ⟨?_, ?_⟩
  · exact hdecode _ _ _ _ (show Worker.shipped.proc.Opens Worker.plainRequest by decide)
      ⟨rfl, by decide, by decide +kernel⟩
  · refine hignore _ _ Worker.plainRequest _ _ ?_ ?_
    · exact RequestEnv.not_hasTraceId rfl (by decide +kernel)
    · exact RequestEnv.not_hasTraceId rfl (by decide +kernel)

end LumbreExt
