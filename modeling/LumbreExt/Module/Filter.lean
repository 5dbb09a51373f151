import LumbreExt.Module.CallTree

/-!
# The duration filter keeps whole branches

A span is filtered when its call returns, before the calls around it have returned. The interval of a
call lies inside the interval of the call around it, so with a clock that does not go back the call
around it lasts at least as long.

* `Replay.within` — the readings of a replay: every call starts and ends between its two ends.
* `Replay.kept` — with a fixed minimum duration and no `HTTP_IN` among the calls, no call around a
  kept one is filtered.
* `spanType_ne_httpIn` — the hooks never start an `HTTP_IN` span: neither does the built-in table list
  one, nor is it the type of a userland call.
* `Worker.filter_upClosed` — the result for the requests of every run.
-/

namespace LumbreExt

open Lib

/-! ## Intervals -/

/-- The readings do not go back. -/
def Clock.Monotonic (clock : Clock) : Prop := ∀ t t', t ≤ t' → clock t ≤ clock t'

/-- A clock that counts the first hundred readings. -/
lemma Clock.monotonic_counting : Clock.Monotonic fun t => UInt64.ofNat (min t 100) := by
  intro t t' hle
  rw [UInt64.le_iff_toNat_le, toNat_counter, toNat_counter]
  omega

/-- The time the finish of a call measured. -/
def SpanRecord.durationNs (s : SpanRecord) : UInt64 := s.finish.span.durationNs

/-- The call starts and ends with two of the readings `lo, lo + 1, .., hi - 1` of the clock. -/
def SpanRecord.Within (clock : Clock) (lo hi : ℕ) (s : SpanRecord) : Prop :=
  ∃ t₁ t₂, lo ≤ t₁ ∧ t₁ ≤ t₂ ∧ t₂ < hi ∧ s.durationNs = clock t₂ - clock t₁

lemma SpanRecord.Within.mono {clock : Clock} {lo hi lo' hi' : ℕ} {s : SpanRecord}
    (h : s.Within clock lo hi) (hlo : lo' ≤ lo) (hhi : hi ≤ hi') : s.Within clock lo' hi' := by
  obtain ⟨t₁, t₂, h₁, h₂, h₃, hduration⟩ := h
  exact ⟨t₁, t₂, hlo.trans h₁, h₂, h₃.trans_le hhi, hduration⟩

/-- An interval inside another is not longer, whatever the readings at its ends. -/
lemma sub_le_sub_of_nested {a b c d : UInt64} (hab : a ≤ b) (hbc : b ≤ c) (hcd : c ≤ d) :
    c - b ≤ d - a := by
  rw [UInt64.le_iff_toNat_le] at *
  rw [UInt64.toNat_sub_of_le _ _ (UInt64.le_iff_toNat_le.mpr hbc),
    UInt64.toNat_sub_of_le _ _ (UInt64.le_iff_toNat_le.mpr (hab.trans (hbc.trans hcd)))]
  omega

/-- A call with both ends inside an interval does not last longer than that. -/
lemma SpanRecord.Within.durationNs_le {clock : Clock} (hclock : clock.Monotonic) {lo hi : ℕ}
    {s : SpanRecord} (h : s.Within clock lo hi) : s.durationNs ≤ clock hi - clock lo := by
  obtain ⟨t₁, t₂, h₁, h₂, h₃, hduration⟩ := h
  rw [hduration]
  exact sub_le_sub_of_nested (hclock _ _ h₁) (hclock _ _ h₂) (hclock _ _ h₃.le)

/-- The calls of a replay lie between its ends. -/
lemma Replay.within {clock : Clock} {P : IniChange → Prop} {p p' : Process}
    {f : Forest SpanRecord} (h : Replay clock P p f p') :
    p.ticks ≤ p'.ticks ∧ ∀ s ∈ f.preorder, s.Within clock p.ticks p'.ticks := by
  induction h with
  | nil p => exact ⟨le_rfl, fun _ hs => absurd hs List.not_mem_nil⟩
  | iniSet change hchange hrest ih => cases change <;> exact ih
  | append hinner hrest ihinner ihrest =>
      obtain ⟨hle₁, hwithin₁⟩ := ihinner
      obtain ⟨hle₂, hwithin₂⟩ := ihrest
      refine ⟨hle₁.trans hle₂, ?_⟩
      intro s hs
      rw [Forest.preorder_append, List.mem_append] at hs
      rcases hs with hs | hs
      · exact (hwithin₁ s hs).mono le_rfl hle₂
      · exact (hwithin₂ s hs).mono hle₁ le_rfl
  | @node p p₁ p₂ f g c type span r htype hspan hinner hfinish hrest ihinner ihrest =>
      obtain ⟨hle₁, hwithin₁⟩ := ihinner
      obtain ⟨hle₂, hwithin₂⟩ := ihrest
      have hstart : p.ticks + 1 ≤ p₁.ticks := hle₁
      have hend : p₁.ticks + 1 ≤ p₂.ticks := hle₂
      refine ⟨by omega, ?_⟩
      intro s hs
      rw [Forest.preorder_node, List.mem_cons, List.mem_append] at hs
      rcases hs with rfl | hs | hs
      · refine ⟨p.ticks, p₁.ticks, le_rfl, by omega, hend, ?_⟩
        have hstartNs : span.startNs = clock p.ticks :=
          congrArg LumbreSpan.Identity.startNs hspan
        rw [← hstartNs]
        exact hfinish.duration
      · exact (hwithin₁ s hs).mono (Nat.le_succ p.ticks) (by omega)
      · exact (hwithin₂ s hs).mono (show p.ticks ≤ p₁.ticks + 1 by omega) le_rfl

/-! ## The types of the spans -/

lemma lumbreWlStaticTable_ne_httpIn :
    ∀ src ∈ lumbreWlStaticTable, src.spanType ≠ lumbreSpanHttpIn := by
  decide

/-- The hooks of the shipped module start no `HTTP_IN` span. -/
lemma spanType_ne_httpIn {g : LumbreGlobals}
    (hwhitelist : g.whitelist = builtinWhitelist) {c : HookCall} {type : LumbreSpanTypeT}
    (h : g.spanType c = some type) : type ≠ lumbreSpanHttpIn := by
  cases c with
  | ex func lineno =>
      simp only [LumbreGlobals.spanType, LumbreGlobals.executeExType] at h
      split_ifs at h
      cases h
      decide
  | internal func args =>
      simp only [LumbreGlobals.spanType, LumbreGlobals.executeInternalType] at h
      split_ifs at h
      rw [hwhitelist, built_builtinWhitelist.match_eq_find (by decide)
        lumbreWlStaticTable_key_ne_nil le_rfl] at h
      obtain ⟨entry, hentry, rfl⟩ := Option.map_eq_some_iff.mp h
      obtain ⟨src, hsrc, rfl⟩ := Option.map_eq_some_iff.mp hentry
      exact lumbreWlStaticTable_ne_httpIn src (List.mem_of_find?_eq_some hsrc)

/-! ## The filter -/

/-- The span of the call is not filtered. -/
def SpanRecord.Kept (s : SpanRecord) : Prop := s.finish.rc ≠ 1

/-- The change leaves the minimum duration as it is. -/
def IniChange.KeepsMinDuration : IniChange → Prop
  | .enabled _ => True
  | .minDurationNs _ => False

namespace Replay

variable {clock : Clock} {p p' : Process} {f : Forest SpanRecord}

/-- The whitelist and the minimum duration stay. -/
lemma settings (h : Replay clock IniChange.KeepsMinDuration p f p') :
    p'.g.whitelist = p.g.whitelist ∧ p'.g.minDurationNs = p.g.minDurationNs := by
  induction h with
  | nil p => exact ⟨rfl, rfl⟩
  | iniSet change hchange hrest ih =>
      cases change with
      | enabled value => exact ih
      | minDurationNs value => exact hchange.elim
  | append hinner hrest ihinner ihrest =>
      exact ⟨ihrest.1.trans ihinner.1, ihrest.2.trans ihinner.2⟩
  | node htype hspan hinner hfinish hrest ihinner ihrest =>
      exact ⟨ihrest.1.trans ihinner.1, ihrest.2.trans ihinner.2⟩

/-- A call is filtered exactly when it is shorter than the minimum duration. -/
lemma filtered (h : Replay clock IniChange.KeepsMinDuration p f p')
    (hwhitelist : p.g.whitelist = builtinWhitelist) :
    ∀ s ∈ f.preorder, s.span.type ≠ lumbreSpanHttpIn ∧
      (s.finish.rc = 1 ↔ 0 < p.g.minDurationNs.toUInt64 ∧
        s.durationNs < p.g.minDurationNs.toUInt64) := by
  induction h with
  | nil p => exact fun _ hs => absurd hs List.not_mem_nil
  | iniSet change hchange hrest ih =>
      cases change with
      | enabled value => exact ih hwhitelist
      | minDurationNs value => exact hchange.elim
  | append hinner hrest ihinner ihrest =>
      intro s hs
      obtain ⟨hsame, hmin⟩ := hinner.settings
      rw [Forest.preorder_append, List.mem_append] at hs
      rcases hs with hs | hs
      · exact ihinner hwhitelist s hs
      · rw [← hmin]
        exact ihrest (hsame.trans hwhitelist) s hs
  | @node p p₁ p₂ f g c type span r htype hspan hinner hfinish hrest ihinner ihrest =>
      intro s hs
      obtain ⟨hsame, hmin⟩ := hinner.settings
      have hmin' : p₁.g.minDurationNs = p.g.minDurationNs := hmin
      rw [Forest.preorder_node, List.mem_cons, List.mem_append] at hs
      rcases hs with rfl | hs | hs
      · have hne : span.type ≠ lumbreSpanHttpIn := by
          have heq : span.type = type := congrArg LumbreSpan.Identity.type hspan
          rw [heq]
          exact spanType_ne_httpIn hwhitelist htype
        have hfiltered := hfinish.filtered
        unfold LumbreSpan.Filtered at hfiltered
        rw [hmin', ← hfinish.duration] at hfiltered
        refine ⟨hne, hfiltered.trans ⟨fun h => ⟨h.1, h.2.1⟩, fun h => ⟨h.1, h.2, hne⟩⟩⟩
      · exact ihinner hwhitelist s hs
      · rw [← hmin']
        exact ihrest (hsame.trans hwhitelist) s hs

/-- **No call around a kept one is filtered.** The call around it lasts at least as long. -/
theorem kept (hclock : clock.Monotonic) (h : Replay clock IniChange.KeepsMinDuration p f p')
    (hwhitelist : p.g.whitelist = builtinWhitelist) : f.UpClosed SpanRecord.Kept := by
  induction h with
  | nil p => trivial
  | iniSet change hchange hrest ih =>
      cases change with
      | enabled value => exact ih hwhitelist
      | minDurationNs value => exact hchange.elim
  | append hinner hrest ihinner ihrest =>
      exact Forest.upClosed_append.mpr
        ⟨ihinner hwhitelist, ihrest (hinner.settings.1.trans hwhitelist)⟩
  | @node p p₁ p₂ f g c type span r htype hspan hinner hfinish hrest ihinner ihrest =>
      refine ⟨?_, ihinner hwhitelist, ihrest (hinner.settings.1.trans hwhitelist)⟩
      rintro ⟨s, hs, hkept⟩ hfilter
      apply hkept
      obtain ⟨_, hiff⟩ := hinner.filtered hwhitelist s hs
      have hmin : p₁.g.minDurationNs = p.g.minDurationNs := hinner.settings.2
      obtain ⟨hpos, hshort, _⟩ := hfinish.filtered.mp hfilter
      have hstart : span.startNs = clock p.ticks := congrArg LumbreSpan.Identity.startNs hspan
      -- the interval of the inner call lies inside that of the outer one
      have hinside : s.durationNs ≤ clock p₁.ticks - clock p.ticks :=
        ((hinner.within.2 s hs).mono (Nat.le_succ p.ticks) le_rfl).durationNs_le hclock
      rw [hmin, hstart] at hshort
      rw [hmin] at hpos
      exact hiff.mpr ⟨hpos, UInt64.lt_of_le_of_lt hinside hshort⟩

end Replay

/-! ## Every request -/

namespace Worker

lemma whitelist_spanFinish {clock : Clock} {p p' : Process} {span : LumbreSpan}
    {minDurationNs readPos : UInt64} {r : FinishResult}
    (h : p.spanFinish clock span minDurationNs readPos = some (r, p')) :
    p'.g.whitelist = p.g.whitelist := by
  unfold Process.spanFinish at h
  split at h
  · cases h
    rfl
  · cases h

lemma whitelist_phpRinit (clock : Clock) (p : Process) (env : RequestEnv) :
    (p.phpRinit clock env).g.whitelist = p.g.whitelist := by
  obtain ⟨q, _, hsame, hrinit | ⟨_, hrinit⟩⟩ := p.phpRinit_cases clock env
  · rw [hrinit]
    exact hsame.whitelist
  · rw [hrinit]
    exact hsame.whitelist

lemma whitelist_enter (clock : Clock) (p : Process) (call : HookCall) :
    (p.enter clock call).2.g.whitelist = p.g.whitelist := by
  rcases p.enter_cases clock call with ⟨_, henter⟩ | ⟨_, _, _, _, henter⟩
  · rw [henter]
  · rw [henter]
    rfl

lemma whitelist_leave {clock : Clock} {p p' : Process} {frame : HookFrame} {readPos : UInt64}
    (h : p.leave clock frame readPos = some p') : p'.g.whitelist = p.g.whitelist := by
  cases frame with
  | passThrough =>
      cases h
      rfl
  | traced span =>
      obtain ⟨⟨r, p''⟩, hfinish, rfl⟩ := Option.map_eq_some_iff.mp h
      exact whitelist_spanFinish hfinish

lemma whitelist_phpRshutdown {clock : Clock} {p p' : Process} {readPos : UInt64}
    (h : p.phpRshutdown clock readPos = some p') : p'.g.whitelist = p.g.whitelist := by
  unfold Process.phpRshutdown at h
  split_ifs at h
  · cases h
    rfl
  · obtain ⟨⟨r, p''⟩, hfinish, rfl⟩ := Option.map_eq_some_iff.mp h
    have hsame : p''.g.whitelist = p.g.whitelist := whitelist_spanFinish hfinish
    exact hsame

/-- A step of the process that keeps the whitelist, recorded in the worker. -/
lemma whitelist_settle {w : Worker} {o : Option Process}
    (h : ∀ p, o = some p → p.g.whitelist = w.proc.g.whitelist) :
    (w.settle o).proc.g.whitelist = w.proc.g.whitelist := by
  cases o with
  | none => rfl
  | some p => exact h p rfl

/-- No event touches the whitelist. -/
lemma whitelist_step {clock : Clock} {w w' : Worker} {e : Event}
    (h : w.step clock e = some w') : w'.proc.g.whitelist = w.proc.g.whitelist := by
  cases transition_of_step h with
  | rinit env _ => exact whitelist_phpRinit clock w.proc.cleared env
  | enter call _ => exact whitelist_enter clock w.proc call
  | @leave readPos frame rest _ =>
      exact whitelist_settle (w := w.withStack rest) fun _ hleave => whitelist_leave hleave
  | bailout _ => rfl
  | iniSet change => cases change <;> rfl
  | rshutdown readPos _ =>
      exact whitelist_settle (w := w.endRequest) fun _ hshutdown => whitelist_phpRshutdown hshutdown

/-- The shipped module always looks calls up in the built-in table. -/
lemma whitelist_of_reachable {clock : Clock} {w : Worker}
    (h : (machine clock lumbreWlStaticTable).Reachable w) :
    w.proc.g.whitelist = builtinWhitelist := by
  refine h.invariant (I := fun w => w.proc.g.whitelist = builtinWhitelist) (fun w hw => ?_)
    fun _ _ _ hw hstep => (whitelist_step hstep).trans hw
  obtain ⟨settings, g, hg, rfl⟩ := hw
  obtain ⟨whitelist, hinit, rfl⟩ := Option.map_eq_some_iff.mp hg
  rw [lumbreWhitelistInit_builtin] at hinit
  exact (Option.some_inj.mp hinit).symm

/-- **The duration filter never orphans a recorded span.** In every run of the shipped module with a
clock that does not go back, for every traced request and every well-nested body of it that leaves
`lumbre.min_duration_ns` alone: the root span is the only `HTTP_IN` span, and if a span is not
filtered, then no span above it in the call tree is. -/
theorem filter_upClosed {clock : Clock} (hclock : clock.Monotonic) {w : Worker}
    (hreach : (machine clock lumbreWlStaticTable).Reachable w) (hidle : w.running = false)
    (env : RequestEnv) (hactive : (w.proc.cleared.phpRinit clock env).g.ctx.active ≠ 0)
    {body : Body} (hfixed : body.AllChanges IniChange.KeepsMinDuration) (readPos : UInt64) :
    ∃ p root calls w',
      evalBody clock body (w.proc.cleared.phpRinit clock env) = some (p, calls) ∧
      (machine clock lumbreWlStaticTable).run w
        (.rinit env :: (body.events ++ [.rshutdown readPos])) = some w' ∧
      (root.span = p.g.rootSpan ∧ root.span.type = lumbreSpanHttpIn ∧
        ∀ s ∈ calls.preorder, s.span.type ≠ lumbreSpanHttpIn) ∧
      (calls.size + 1 < 2 ^ 64 - 1 → CallTree root calls w'.proc) ∧
      (Forest.node root calls .nil).UpClosed SpanRecord.Kept := by
  obtain ⟨q, p, root, calls, r, w', hrequest, hrun, hproc⟩ :=
    exists_request hreach hidle env hactive hfixed readPos
  have hwhitelist : (q.afterRoot root).g.whitelist = builtinWhitelist :=
    hrequest.begun.whitelist.trans (whitelist_of_reachable hreach)
  have hroot : root.type = lumbreSpanHttpIn :=
    congrArg LumbreSpan.Identity.type hrequest.begun.root
  refine ⟨p, ⟨q.g.ctx, root, r⟩, calls, w', hrequest.eval, hrun,
    ⟨hrequest.replay.rootSpan.symm, hroot, fun s hs =>
      (hrequest.replay.filtered hwhitelist s hs).1⟩, fun hspans => ?_, ?_⟩
  · rw [hproc]
    exact hrequest.callTree hspans
  · refine ⟨?_, hrequest.replay.kept hclock hwhitelist, trivial⟩
    intro _ hfilter
    -- the root span is never filtered
    obtain ⟨_, _, hne⟩ := hrequest.finish.filtered.mp hfilter
    exact hne hroot

/-- A query with a file access inside, and a minimum duration that only the query reaches. -/
theorem filter_upClosed_query :
    ∃ root calls w', (machine (fun t => UInt64.ofNat (min t 100)) lumbreWlStaticTable).run shipped
        (.iniSet (.minDurationNs 2) :: .rinit plainRequest :: (queryBody.events ++ [.rshutdown 0])) =
          some w' ∧
      (Forest.node root calls .nil).UpClosed SpanRecord.Kept := by
  have hstep : (machine (fun t => UInt64.ofNat (min t 100)) lumbreWlStaticTable).step shipped
      (.iniSet (.minDurationNs 2)) = some (shipped.iniSet (.minDurationNs 2)) := rfl
  have hfixed : queryBody.AllChanges IniChange.KeepsMinDuration :=
    ⟨⟨trivial, trivial⟩, trivial, trivial, trivial⟩
  obtain ⟨_, root, calls, w', _, hrun, _, _, hclosed⟩ :=
    filter_upClosed Clock.monotonic_counting (.step (.start start_shipped) hstep) rfl plainRequest
      (by decide +kernel) hfixed 0
  refine ⟨root, calls, w', ?_, hclosed⟩
  rw [Machine.run_cons, hstep, Option.bind_some]
  exact hrun

end Worker

end LumbreExt
