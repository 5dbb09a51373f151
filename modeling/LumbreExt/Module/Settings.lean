import LumbreExt.Module.Meaning
import Mathlib.Data.List.TakeWhile

/-!
# The settings that select the calls

`lumbre.mode` as the text of an INI entry, and which calls it makes the module record, request after
request.

* `zendStrtol`, `lumbreOnUpdateMode` — the handler of the entry: `io`, `full`, or a number.
* `SelectsFull`, `lumbreOnUpdateMode_eq_one_iff` — the texts that select userland calls.
* `Worker.Configured` — the settings are those of the start, and the context of a request says whether
  this request carries the trigger header.
* `Worker.spanType_of_settings` — what is recorded in every state of every run.
-/

namespace LumbreExt

open Lib

/-! ## Numbers -/

/-- The white space `strtol` skips. -/
def IsSpace (c : UInt8) : Prop := c = 0x20 ∨ (0x09 ≤ c ∧ c ≤ 0x0D)

instance (c : UInt8) : Decidable (IsSpace c) := inferInstanceAs (Decidable (_ ∨ _))

/-- The number a sequence of decimal digits denotes. -/
def digitsValue (digits : List UInt8) : ℕ := digits.foldl (fun n c => 10 * n + (c.toNat - 48)) 0

/-- `ZEND_STRTOL(s, NULL, 10)`: white space, a sign, and digits, in front of anything. A number out of
range is replaced by the end of the range.
Source: `php_lumbre.c`, `ZEND_STRTOL` -/
def zendStrtol (s : List UInt8) : Int64 :=
  let s := s.dropWhile fun c => IsSpace c
  let digits := if s.head? = some 0x2D ∨ s.head? = some 0x2B then s.tail else s
  let magnitude : ℤ := digitsValue (digits.takeWhile fun c => IsDigit c)
  if s.head? = some 0x2D then Int64.ofInt (max (-magnitude) (-2 ^ 63))
  else Int64.ofInt (min magnitude (2 ^ 63 - 1))

/-- The mode a text selects; `none` is `FAILURE`, which leaves the mode as it is.
Source: `php_lumbre.c`, `lumbre_OnUpdateMode` -/
def lumbreOnUpdateMode (newValue : List UInt8) : Option Int64 :=
  if newValue = ascii "io" then some 0
  else if newValue = ascii "full" then some 1
  else
    -- a text that is no number reads as 0
    let val := zendStrtol newValue
    if val = 0 ∨ val = 1 then some val else none

example : lumbreOnUpdateMode (ascii "FULL") = some 0 := by decide +kernel

example : lumbreOnUpdateMode (ascii " +01x") = some 1 := by decide +kernel

/-- The texts of the number one. -/
def NamesOne (text : List UInt8) : Prop :=
  ∃ spaces sign zeros rest : List UInt8, text = spaces ++ (sign ++ (zeros ++ 0x31 :: rest)) ∧
    (∀ c ∈ spaces, IsSpace c) ∧ (sign = [] ∨ sign = [0x2B]) ∧ (∀ c ∈ zeros, c = 0x30) ∧
    ∀ c, rest.head? = some c → ¬ IsDigit c

/-- The texts that select userland calls. -/
def SelectsFull (text : List UInt8) : Prop := text = ascii "full" ∨ NamesOne text

lemma digitsValue_concat (digits : List UInt8) (c : UInt8) :
    digitsValue (digits ++ [c]) = 10 * digitsValue digits + (c.toNat - 48) := by
  rw [digitsValue, List.foldl_append]
  rfl

lemma toNat_of_isDigit {c : UInt8} (h : IsDigit c) : 48 ≤ c.toNat ∧ c.toNat ≤ 57 :=
  ⟨UInt8.le_iff_toNat_le.mp h.1, UInt8.le_iff_toNat_le.mp h.2⟩

lemma digitsValue_eq_zero_iff {digits : List UInt8} (h : ∀ c ∈ digits, IsDigit c) :
    digitsValue digits = 0 ↔ ∀ c ∈ digits, c = 0x30 := by
  induction digits using List.reverseRecOn with
  | nil => simp [digitsValue]
  | append_singleton digits c ih =>
      have hc := toNat_of_isDigit (h c (by simp))
      rw [digitsValue_concat, List.forall_mem_append, ← ih fun d hd => h d (by simp [hd]),
        List.forall_mem_singleton, ← UInt8.toNat_inj]
      change _ ↔ _ ∧ c.toNat = 48
      omega

lemma digitsValue_eq_one_iff {digits : List UInt8} (h : ∀ c ∈ digits, IsDigit c) :
    digitsValue digits = 1 ↔ ∃ zeros, digits = zeros ++ [0x31] ∧ ∀ c ∈ zeros, c = 0x30 := by
  induction digits using List.reverseRecOn with
  | nil => simp [digitsValue]
  | append_singleton digits c _ =>
      have hc := toNat_of_isDigit (h c (by simp))
      have hzero := digitsValue_eq_zero_iff fun d hd => h d (List.mem_append_left [c] hd)
      rw [digitsValue_concat]
      constructor
      · intro hone
        refine ⟨digits, ?_, hzero.mp (by omega)⟩
        rw [show c = 0x31 from UInt8.toNat_inj.mp (show c.toNat = 49 by omega)]
      · rintro ⟨zeros, heq, hzeros⟩
        obtain ⟨rfl, hlast⟩ := List.append_inj' heq rfl
        obtain rfl := (List.cons.inj hlast).1
        rw [hzero.mpr hzeros]
        rfl

lemma ofInt_eq_one_iff {n : ℤ} (hge : -2 ^ 63 ≤ n) (hlt : n < 2 ^ 63) :
    Int64.ofInt n = 1 ↔ n = 1 := by
  constructor
  · intro h
    rw [← Int64.toInt_ofInt_of_le hge hlt, h]
    rfl
  · rintro rfl
    rfl

/-- A number without a minus in front of it, whose digits denote one. -/
lemma zendStrtol_eq_one {text : List UInt8} :
    zendStrtol text = 1 ↔
      ∃ s, text.dropWhile (fun c => IsSpace c) = s ∧ s.head? ≠ some 0x2D ∧
        digitsValue ((if s.head? = some 0x2B then s.tail else s).takeWhile fun c => IsDigit c) =
          1 := by
  unfold zendStrtol
  dsimp only
  generalize text.dropWhile (fun c => decide (IsSpace c)) = s
  constructor
  · intro h
    by_cases hminus : s.head? = some 0x2D
    · -- no negative number is one
      rw [if_pos hminus, ofInt_eq_one_iff (by omega) (by omega)] at h
      omega
    · have hdigits : (if s.head? = some 0x2D ∨ s.head? = some 0x2B then s.tail else s) =
          if s.head? = some 0x2B then s.tail else s := by
        simp only [hminus, false_or]
      rw [if_neg hminus, hdigits, ofInt_eq_one_iff (by omega) (by omega)] at h
      exact ⟨s, rfl, hminus, by omega⟩
  · rintro ⟨s', rfl, hminus, hone⟩
    rw [if_neg hminus]
    have hdigits : (if s.head? = some 0x2D ∨ s.head? = some 0x2B then s.tail else s) =
        if s.head? = some 0x2B then s.tail else s := by
      simp only [hminus, false_or]
    rw [hdigits, hone]
    rfl

/-- Digits in front of something else. -/
lemma takeWhile_digits {zeros rest : List UInt8} (hzeros : ∀ c ∈ zeros, c = 0x30)
    (hrest : ∀ c, rest.head? = some c → ¬ IsDigit c) :
    (zeros ++ 0x31 :: rest).takeWhile (fun c => IsDigit c) = zeros ++ [0x31] := by
  have hall : ∀ c ∈ zeros ++ [0x31], decide (IsDigit c) = true := by
    intro c hc
    rcases List.mem_append.mp hc with hc | hc
    · rw [hzeros c hc]
      rfl
    · rw [List.mem_singleton.mp hc]
      rfl
  have hnone : rest.takeWhile (fun c => decide (IsDigit c)) = [] := by
    cases rest with
    | nil => rfl
    | cons c rest => exact List.takeWhile_cons_of_neg (by simpa using hrest c rfl)
  rw [show zeros ++ 0x31 :: rest = (zeros ++ [0x31]) ++ rest by simp,
    List.takeWhile_append_of_pos hall, hnone, List.append_nil]

/-- The first digits of a text denote one when they are zeros and a one. -/
lemma digitsValue_takeWhile_eq_one_iff (t : List UInt8) :
    digitsValue (t.takeWhile fun c => IsDigit c) = 1 ↔
      ∃ zeros rest, t = zeros ++ 0x31 :: rest ∧ (∀ c ∈ zeros, c = 0x30) ∧
        ∀ c, rest.head? = some c → ¬ IsDigit c := by
  constructor
  · intro ht
    have hall : ∀ c ∈ t.takeWhile (fun c => IsDigit c), IsDigit c := by
      intro c hc
      simpa using List.mem_takeWhile_imp hc
    obtain ⟨zeros, htake, hzeros⟩ := (digitsValue_eq_one_iff hall).mp ht
    refine ⟨zeros, t.dropWhile fun c => IsDigit c, ?_, hzeros, ?_⟩
    · conv_lhs => rw [← List.takeWhile_append_dropWhile (p := fun c => decide (IsDigit c)) (l := t)]
      rw [htake, List.append_assoc]
      rfl
    · intro c hc
      have hhead := List.head?_dropWhile_not (fun c => decide (IsDigit c)) t
      rw [hc] at hhead
      simpa using hhead
  · rintro ⟨zeros, rest, rfl, hzeros, hrest⟩
    have hdigits : ∀ c ∈ zeros, IsDigit c := by
      intro c hc
      rw [hzeros c hc]
      decide
    rw [takeWhile_digits hzeros hrest, digitsValue_concat,
      (digitsValue_eq_zero_iff hdigits).mpr hzeros]
    rfl

/-- Such a text starts with a zero or a one. -/
lemma head?_digits {zeros rest : List UInt8} (hzeros : ∀ c ∈ zeros, c = 0x30) {c : UInt8}
    (hc : (zeros ++ 0x31 :: rest).head? = some c) : c = 0x30 ∨ c = 0x31 := by
  cases zeros with
  | nil => exact Or.inr (Option.some_inj.mp hc).symm
  | cons d zeros => exact Or.inl ((Option.some_inj.mp hc).symm.trans (hzeros d List.mem_cons_self))

/-- White space ends in front of a sign or a digit. -/
lemma dropWhile_spaces {spaces sign zeros rest : List UInt8} (hspaces : ∀ c ∈ spaces, IsSpace c)
    (hsign : sign = [] ∨ sign = [0x2B]) (hzeros : ∀ c ∈ zeros, c = 0x30) :
    (spaces ++ (sign ++ (zeros ++ 0x31 :: rest))).dropWhile (fun c => IsSpace c) =
      sign ++ (zeros ++ 0x31 :: rest) := by
  rw [List.dropWhile_append_of_pos fun c hc => decide_eq_true (hspaces c hc)]
  rcases hsign with rfl | rfl
  · cases zeros with
    | nil => rfl
    | cons c zeros =>
        rw [hzeros c List.mem_cons_self]
        rfl
  · rfl

/-- **The texts that `strtol` reads as one.** -/
lemma zendStrtol_eq_one_iff (text : List UInt8) : zendStrtol text = 1 ↔ NamesOne text := by
  rw [zendStrtol_eq_one]
  constructor
  · rintro ⟨s, hs, hminus, hone⟩
    have htext : text = text.takeWhile (fun c => IsSpace c) ++ s := by
      rw [← hs, List.takeWhile_append_dropWhile]
    have hspaces : ∀ c ∈ text.takeWhile (fun c => IsSpace c), IsSpace c := by
      intro c hc
      simpa using List.mem_takeWhile_imp hc
    obtain ⟨zeros, rest, hdigits, hzeros, hrest⟩ := (digitsValue_takeWhile_eq_one_iff _).mp hone
    by_cases hplus : s.head? = some 0x2B
    · rw [if_pos hplus] at hdigits
      refine ⟨_, [0x2B], zeros, rest, ?_, hspaces, Or.inr rfl, hzeros, hrest⟩
      rw [← hdigits]
      conv_lhs => rw [htext]
      rw [← List.cons_head?_tail hplus]
      rfl
    · rw [if_neg hplus] at hdigits
      refine ⟨_, [], zeros, rest, ?_, hspaces, Or.inl rfl, hzeros, hrest⟩
      rw [← hdigits]
      exact htext
  · rintro ⟨spaces, sign, zeros, rest, rfl, hspaces, hsign, hzeros, hrest⟩
    have hone := (digitsValue_takeWhile_eq_one_iff _).mpr ⟨zeros, rest, rfl, hzeros, hrest⟩
    refine ⟨_, dropWhile_spaces hspaces hsign hzeros, ?_⟩
    rcases hsign with rfl | rfl
    · rw [List.nil_append, if_neg fun h => absurd (head?_digits hzeros h) (by decide)]
      exact ⟨fun h => absurd (head?_digits hzeros h) (by decide), hone⟩
    · rw [List.singleton_append, List.head?_cons, if_pos rfl, List.tail_cons]
      exact ⟨Option.some_inj.not.mpr (by decide), hone⟩

/-- **The texts that select userland calls.** -/
lemma lumbreOnUpdateMode_eq_one_iff {text : List UInt8} {mode : Int64}
    (h : lumbreOnUpdateMode text = some mode) : mode = 1 ↔ SelectsFull text := by
  unfold lumbreOnUpdateMode at h
  dsimp only at h
  by_cases hio : text = ascii "io"
  · rw [if_pos hio] at h
    have hzero : mode ≠ 1 := by
      rw [← Option.some_inj.mp h]
      decide
    refine iff_of_false hzero ?_
    rw [SelectsFull, ← zendStrtol_eq_one_iff, hio]
    decide +kernel
  · rw [if_neg hio] at h
    by_cases hfull : text = ascii "full"
    · rw [if_pos hfull] at h
      exact iff_of_true (Option.some_inj.mp h).symm (Or.inl hfull)
    · rw [if_neg hfull] at h
      split_ifs at h
      rw [← Option.some_inj.mp h, zendStrtol_eq_one_iff, SelectsFull, or_iff_right hfull]

/-! ## The calls of a run -/

/-- RINIT leaves the mode and the trigger header alone. -/
lemma Process.phpRinit_settings (clock : Clock) (p : Process) (env : RequestEnv) :
    (p.phpRinit clock env).g.mode = p.g.mode ∧
      (p.phpRinit clock env).g.triggerHeader = p.g.triggerHeader := by
  obtain ⟨q, horigin, _, hrinit⟩ := p.phpRinit_cases clock env
  have hq : q.g.mode = p.g.mode ∧ q.g.triggerHeader = p.g.triggerHeader := by
    rcases horigin with rfl | ⟨_, rfl⟩
    · exact ⟨rfl, rfl⟩
    · exact ⟨(sameSettings_lazyInit p env).1.mode, (sameSettings_lazyInit p env).1.triggerHeader⟩
  rcases hrinit with hrinit | ⟨_, hrinit⟩
  · rwa [hrinit]
  · rw [hrinit]
    exact hq

namespace Worker

/-- The mode and the trigger header are those of the start, and the context of a request says whether
this request carries the trigger header. -/
structure Configured (settings : LumbreSettings) (w : Worker) : Prop where
  mode : w.proc.g.mode = settings.mode
  triggerHeader : w.proc.g.triggerHeader = settings.triggerHeader
  fullTrace : w.proc.g.ctx.active ≠ 0 → ∃ env, w.request = some env ∧
    (w.proc.g.ctx.fullTrace ≠ 0 ↔ env.triggered settings.triggerHeader = true)

variable {clock : Clock} {settings : LumbreSettings} {w w' : Worker} {e : Event}

/-- **Every event keeps it.** -/
lemma Configured.step (h : w.Configured settings) (hsafe : w.Safe)
    (hstep : w.step clock e = some w') : w'.Configured settings := by
  cases transition_of_step hstep with
  | rinit env hidle =>
      obtain ⟨hmode, htrigger⟩ := w.proc.cleared.phpRinit_settings clock env
      refine ⟨hmode.trans h.mode, htrigger.trans h.triggerHeader, ?_⟩
      intro hactive
      obtain ⟨q, hrinit, hsame, _⟩ :=
        Process.phpRinit_traced (p := w.proc.cleared) (hsafe.inactive hidle) hactive
      refine ⟨env, rfl, ?_⟩
      have hfull := Process.fullTrace_startRoot clock q env
      rw [hsame.triggerHeader, ← hrinit] at hfull
      rw [← h.triggerHeader]
      exact hfull
  | enter call _ =>
      rcases w.proc.enter_cases clock call with ⟨_, henter⟩ | ⟨_, _, _, _, henter⟩
      · rw [henter]
        exact ⟨h.mode, h.triggerHeader, h.fullTrace⟩
      · rw [henter]
        exact ⟨h.mode, h.triggerHeader, h.fullTrace⟩
  | @leave readPos frame rest hstack =>
      cases frame with
      | passThrough => exact ⟨h.mode, h.triggerHeader, h.fullTrace⟩
      | traced span =>
          have hactive := hsafe.active_of_openSpans (openSpans_traced hstack)
          obtain ⟨r, hr, hleave⟩ :=
            Process.leave_traced clock (hsafe.active hactive).1.ready span readPos
          rw [hleave]
          refine ⟨h.mode, h.triggerHeader, fun _ => ?_⟩
          obtain ⟨env, henv, hfull⟩ := h.fullTrace hactive
          refine ⟨env, henv, ?_⟩
          have hctx : (w.proc.afterFinish r).g.ctx.fullTrace = w.proc.g.ctx.fullTrace := by
            change r.ctx.fullTrace = _
            rw [hr.ctx]
            rfl
          change (w.proc.afterFinish r).g.ctx.fullTrace ≠ 0 ↔ _
          rw [hctx]
          exact hfull
  | bailout _ => exact ⟨h.mode, h.triggerHeader, h.fullTrace⟩
  | iniSet change => cases change <;> exact ⟨h.mode, h.triggerHeader, h.fullTrace⟩
  | rshutdown readPos _ =>
      by_cases hactive : w.proc.g.ctx.active = 0
      · rw [Process.phpRshutdown_inactive clock hactive]
        exact ⟨h.mode, h.triggerHeader, h.fullTrace⟩
      · obtain ⟨r, _, hshutdown⟩ :=
          Process.phpRshutdown_active clock (hsafe.active hactive).1.ready hactive readPos
        rw [hshutdown]
        exact ⟨h.mode, h.triggerHeader, fun hne => absurd rfl hne⟩

/-- **What is recorded, from the texts of the settings.** In every state of every run of the shipped
module, bailouts and changes of settings included: a call is traced exactly when tracing is switched
on, a request is traced, and the whitelist lists the function; or, for a userland function, when the
text of `lumbre.mode` selects them or this request carries the trigger header. -/
theorem spanType_of_settings {text : List UInt8}
    (hmode : lumbreOnUpdateMode text = some settings.mode) {g : LumbreGlobals}
    (hstart : phpGinit lumbreWlStaticTable settings = some g) {es : List Event}
    (hrun : (machine clock lumbreWlStaticTable).run (fresh g) es = some w) (call : HookCall) :
    ∃ full : Bool, (full = true ↔ SelectsFull text ∨
        ∃ env, w.request = some env ∧ env.triggered settings.triggerHeader = true) ∧
      w.proc.g.spanType call =
        if w.proc.g.enabled ≠ 0 ∧ w.proc.g.ctx.active ≠ 0 then call.selected full else none := by
  have hstarted : Start lumbreWlStaticTable (fresh g) := ⟨settings, g, hstart, rfl⟩
  have hreach := (Machine.Reachable.start (M := machine clock _) hstarted).run hrun
  have hconfigured : w.Configured settings := by
    refine (Machine.run_invariant (I := fun w => w.Safe ∧ w.Configured settings) ?_
      ⟨safe_start hstarted, ?_⟩ hrun).2
    · exact fun _ _ _ hs hstep => ⟨hs.1.step clock hstep, hs.2.step hs.1 hstep⟩
    · obtain ⟨whitelist, _, rfl⟩ := Option.map_eq_some_iff.mp hstart
      exact ⟨rfl, rfl, fun hne => absurd rfl hne⟩
  have hselects : w.proc.g.mode = 1 ↔ SelectsFull text := by
    rw [hconfigured.mode]
    exact lumbreOnUpdateMode_eq_one_iff hmode
  by_cases hactive : w.proc.g.ctx.active = 0
  · classical
    refine ⟨decide _, decide_eq_true_iff, ?_⟩
    rw [LumbreGlobals.spanType_of_inactive hactive, if_neg fun h => h.2 hactive]
  · obtain ⟨env, henv, hfull⟩ := hconfigured.fullTrace hactive
    have hrequest : (∃ env', w.request = some env' ∧
        env'.triggered settings.triggerHeader = true) ↔ w.proc.g.ctx.fullTrace ≠ 0 := by
      rw [hfull]
      constructor
      · rintro ⟨env', henv', htriggered⟩
        obtain rfl := Option.some_inj.mp (henv'.symm.trans henv)
        exact htriggered
      · exact fun htriggered => ⟨env, henv, htriggered⟩
    obtain ⟨full, hor⟩ : ∃ full : Bool,
        full = true ↔ w.proc.g.mode = 1 ∨ w.proc.g.ctx.fullTrace ≠ 0 :=
      ⟨decide (_ ∨ _), decide_eq_true_iff⟩
    refine ⟨full, ?_, ?_⟩
    · rw [hor, hselects, hrequest]
    · rw [spanType_eq_selected (whitelist_of_reachable hreach) hactive hor]
      simp only [hactive, ne_eq, not_false_eq_true, and_true]

/-- With the text ` 1`, a userland function is recorded. -/
theorem spanType_of_settings_one :
    ∃ w, (machine (fun _ => 0) lumbreWlStaticTable).run
        (fresh (freshGlobals { iniDefaults with mode := 1 } builtinWhitelist))
        [.rinit plainRequest] = some w ∧
      w.proc.g.spanType (.ex (some ⟨some (ascii "f"), none, true, none⟩) none) =
        some lumbreSpanFunc := by
  have hstart : phpGinit lumbreWlStaticTable { iniDefaults with mode := 1 } =
      some (freshGlobals { iniDefaults with mode := 1 } builtinWhitelist) := by
    rw [phpGinit, lumbreWhitelistInit_builtin]
    rfl
  have hstate : ((machine (fun _ => 0) lumbreWlStaticTable).run
      (fresh (freshGlobals { iniDefaults with mode := 1 } builtinWhitelist))
      [.rinit plainRequest]).map (fun w => (w.proc.g.enabled, w.proc.g.ctx.active)) =
        some (1, 1) := by
    decide +kernel
  obtain ⟨w, hrun, hon⟩ := Option.map_eq_some_iff.mp hstate
  obtain ⟨henabled, hactive⟩ := Prod.mk.inj hon
  obtain ⟨full, hfull, htype⟩ := spanType_of_settings
    (show lumbreOnUpdateMode (ascii " 1") = some 1 by decide +kernel) hstart hrun
    (.ex (some ⟨some (ascii "f"), none, true, none⟩) none)
  have hselects : SelectsFull (ascii " 1") :=
    Or.inr ⟨[0x20], [], [], [], rfl, fun c hc => Or.inl (List.mem_singleton.mp hc), Or.inl rfl,
      by simp, by simp⟩
  refine ⟨w, hrun, ?_⟩
  rw [htype, henabled, hactive, if_pos (by decide), hfull.mpr (Or.inl hselects)]
  rfl

end Worker

end LumbreExt
