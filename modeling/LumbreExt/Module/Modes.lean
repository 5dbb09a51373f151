import LumbreExt.Module.Meaning

/-!
# The two modes

What a trace in the mode `full` has beside a trace of the same calls in the mode `io`.

* `Body.blank` — a body without the positions of the daemon, which differ from run to run.
* `HookCall.selected_io` — the mode `io` leaves out the userland calls, and no other.
* `Body.recorded_io` — so its tree of recorded calls is the other without these nodes, what is below
  them moving up.
* `Worker.io_contracts_full` — and so is what a reader rebuilds from the payloads.
-/

namespace LumbreExt

open Lib Lib.MsgPack

/-! ## The calls of a body -/

/-- The body without the positions of the daemon. -/
def Body.blank : Body → Body
  | .done => .done
  | .iniSet change rest => .iniSet change rest.blank
  | .call c inner _ rest => .call c inner.blank 0 rest.blank

lemma Body.recorded_blank (full : Bool) (limit : ℕ) (body : Body) (on : Bool) :
    body.blank.recorded full limit on = body.recorded full limit on := by
  induction body generalizing on with
  | done => rfl
  | iniSet change rest ih =>
      cases change with
      | enabled value => exact ih _
      | minDurationNs value => exact ih _
  | call c inner readPos rest ihinner ihrest =>
      unfold blank recorded
      dsimp only
      rw [ihinner, ihrest]

lemma Body.short_blank {body : Body} :
    (∀ e ∈ body.blank.events, e.Short) ↔ ∀ e ∈ body.events, e.Short := by
  induction body with
  | done => exact Iff.rfl
  | iniSet change rest ih =>
      rw [blank, events, events, List.forall_mem_cons, List.forall_mem_cons, ih]
  | call c inner readPos rest ihinner ihrest =>
      rw [blank, events, events]
      simp only [List.forall_mem_cons, List.forall_mem_append, ihinner, ihrest]
      rfl

/-! ## What the modes select -/

/-- The type of a call that is selected in both modes. -/
def SelectedInIo (c : CallRecord) : Prop := c.1 ≠ lumbreSpanFunc

instance : DecidablePred SelectedInIo := fun c => inferInstanceAs (Decidable (c.1 ≠ lumbreSpanFunc))

lemma lumbreWlStaticTable_spanType : ∀ r ∈ lumbreWlStaticTable, r.spanType ≠ lumbreSpanFunc := by
  decide

/-- **The mode `io` leaves out the userland calls.** -/
lemma HookCall.selected_io (call : HookCall) :
    call.selected false = (call.selected true).filter fun type => type ≠ lumbreSpanFunc := by
  cases call with
  | internal func args =>
      unfold selected
      dsimp only
      cases func.functionName with
      | none => rfl
      | some name =>
          rw [Option.bind_some]
          cases hfind : lumbreWlStaticTable.find? fun r =>
            r.key = nameKey (func.scopeName.getD []) name with
          | none => rfl
          | some r =>
              have htype := lumbreWlStaticTable_spanType r (List.mem_of_find?_eq_some hfind)
              rw [Option.map_some, Option.filter_some, if_pos (decide_eq_true htype)]
  | ex func lineno =>
      unfold selected
      dsimp only
      cases func.bind fun f => f.functionName <;> rfl

/-- **A body in the mode `io`.** -/
theorem Body.recorded_io (limit : ℕ) (body : Body) (on : Bool) :
    body.recorded false limit on =
      ((body.recorded true limit on).1,
        (body.recorded true limit on).2.contract SelectedInIo) := by
  induction body generalizing on with
  | done => rfl
  | iniSet change rest ih =>
      cases change with
      | enabled value => exact ih _
      | minDurationNs value => exact ih _
  | call c inner readPos rest ihinner ihrest =>
      unfold recorded
      dsimp only
      rw [ihinner, ihrest]
      have hselected : (if on then c.selected false else none) =
          (if on then c.selected true else none).filter fun type => type ≠ lumbreSpanFunc := by
        cases on with
        | false => rfl
        | true => exact c.selected_io
      rw [hselected]
      cases if on then c.selected true else none with
      | none => exact congrArg (Prod.mk _) (Forest.contract_append _ _ _).symm
      | some type =>
          rw [Option.filter_some]
          by_cases htype : type = lumbreSpanFunc
          · -- the calls inside of it take its place
            have hout : ¬ SelectedInIo (type, c.record limit type) := not_not_intro htype
            rw [if_neg (by simpa using htype), Forest.contract, if_neg hout]
          · have hin : SelectedInIo (type, c.record limit type) := htype
            rw [if_pos (by simpa using htype), Forest.contract, if_pos hin]

/-! ## What the reader rebuilds -/

/-- A decoded record that is not a userland call. -/
def DecodedInIo (d : Option ℤ × List (Value × Value)) : Prop :=
  d.1 ≠ some (lumbreSpanFunc.toNat : ℤ)

instance : DecidablePred DecodedInIo := fun d =>
  inferInstanceAs (Decidable (d.1 ≠ some (lumbreSpanFunc.toNat : ℤ)))

lemma decodedInIo_decodedRecord (c : CallRecord) :
    DecodedInIo (decodedRecord c) ↔ SelectedInIo c := by
  change ¬ some (c.1.toNat : ℤ) = some (lumbreSpanFunc.toNat : ℤ) ↔ ¬ c.1 = lumbreSpanFunc
  rw [not_iff_not, Option.some_inj, Nat.cast_inj, UInt8.toNat_inj]

namespace Worker

/-- **A trace in the mode `io` is the full trace without the userland calls.** Two workers of the
shipped module with one limit for queries serve one request, with the same calls: the one records
userland calls, by its mode or for the trigger header, and the other does not. If all spans of both
are accepted, and the first one starts fewer than `2 ^ 64 - 1`, then what a reader rebuilds from the
second is what it rebuilds from the first, ids and times aside, with the userland calls taken out and
what they called hung below their callers. -/
theorem io_contracts_full {clock clock' : Clock} {w v : Worker}
    (hw : (machine clock lumbreWlStaticTable).Reachable w) (hwidle : w.running = false)
    (hv : (machine clock' lumbreWlStaticTable).Reachable v) (hvidle : v.running = false)
    (hlimit : v.proc.g.queryLimit = w.proc.g.queryLimit) {env env' : RequestEnv}
    (hrequest : env'.uriAndMethod = env.uriAndMethod)
    (hwactive : (w.proc.cleared.phpRinit clock env).g.ctx.active ≠ 0)
    (hvactive : (v.proc.cleared.phpRinit clock' env').g.ctx.active ≠ 0)
    (hfull : w.tracesFunctions env = true) (hio : v.tracesFunctions env' = false)
    {body body' : Body} (hbody : body'.blank = body.blank)
    (hshort : ∀ e ∈ .rinit env :: body.events, e.Short) (readPos readPos' : UInt64) :
    ∃ w' v',
      (machine clock lumbreWlStaticTable).run w
        (.rinit env :: (body.events ++ [.rshutdown readPos])) = some w' ∧
      (machine clock' lumbreWlStaticTable).run v
        (.rinit env' :: (body'.events ++ [.rshutdown readPos'])) = some v' ∧
      ((w.recordedCalls env body).size + 1 < 2 ^ 64 - 1 →
        (∀ r ∈ w'.proc.finished, r.rc = 0) → (∀ r ∈ v'.proc.finished, r.rc = 0) →
        v'.rebuilt.map valueRecord = (w'.rebuilt.map valueRecord).contract DecodedInIo) := by
  obtain ⟨_, _, _, _, _, w', _, hwrun, _⟩ :=
    exists_request hw hwidle env hwactive body.allChanges_true readPos
  obtain ⟨_, _, _, _, _, v', _, hvrun, _⟩ :=
    exists_request hv hvidle env' hvactive body'.allChanges_true readPos'
  refine ⟨w', v', hwrun, hvrun, ?_⟩
  intro hsize hwaccepted hvaccepted
  have hcalls : v.recordedCalls env' body' = (w.recordedCalls env body).contract SelectedInIo := by
    have hio' := Body.recorded_io w.proc.g.queryLimit.toNat body true
    rw [recordedCalls, recordedCalls, hfull, hio, hlimit, ← Body.recorded_blank, hbody,
      Body.recorded_blank, hio']
  have hshort' : ∀ e ∈ .rinit env' :: body'.events, e.Short := by
    obtain ⟨hline, hevents⟩ := List.forall_mem_cons.mp hshort
    refine List.forall_mem_cons.mpr ⟨?_, ?_⟩
    · change ShortLength _ ∧ ShortLength _
      rw [hrequest]
      exact hline
    · rw [← Body.short_blank, hbody, Body.short_blank]
      exact hevents
  have hsize' : (v.recordedCalls env' body').size + 1 < 2 ^ 64 - 1 := by
    have hle := Forest.size_contract_le SelectedInIo (w.recordedCalls env body)
    rw [hcalls]
    omega
  have hrecord : env'.record = env.record := by
    unfold RequestEnv.record
    rw [hrequest]
  have hroot : SelectedInIo env.record := show lumbreSpanHttpIn ≠ lumbreSpanFunc by decide
  rw [rebuilt_eq_recorded hv hvidle hvactive hshort' hvrun hsize' hvaccepted,
    rebuilt_eq_recorded hw hwidle hwactive hshort hwrun hsize hwaccepted, hrecord, hcalls,
    Forest.contract_map, Forest.contract_congr fun c _ => decodedInIo_decodedRecord c,
    Forest.contract, if_pos hroot]
  rfl

/-- The request with the trigger header. -/
def debugRequest : RequestEnv :=
  { plainRequest with serverVars := some [(ascii "HTTP_X_TRACE_DEBUG", .string [])] }

/-- A userland function that opens a file. -/
def userBody : Body :=
  .call (.ex (some ⟨some (ascii "f"), none, true, none⟩) none)
    (.call (functionCall "fopen") .done 0 .done) 0 .done

/-- With the trigger header there are three spans, and without it two. -/
theorem io_contracts_full_trigger :
    ∃ w' v', (machine (fun _ => 0) lumbreWlStaticTable).run shipped
        (.rinit debugRequest :: (userBody.events ++ [.rshutdown 0])) = some w' ∧
      (machine (fun _ => 0) lumbreWlStaticTable).run shipped
        (.rinit plainRequest :: (userBody.events ++ [.rshutdown 0])) = some v' ∧
      w'.proc.finished.map (fun r => r.rc) = [0, 0, 0] ∧
      v'.proc.finished.map (fun r => r.rc) = [0, 0] ∧
      v'.rebuilt.map valueRecord = (w'.rebuilt.map valueRecord).contract DecodedInIo := by
  have hreach : (machine (fun _ => 0) lumbreWlStaticTable).Reachable shipped :=
    .start start_shipped
  have hshort : ∀ e ∈ .rinit debugRequest :: userBody.events, e.Short := by
    have huser : (HookCall.ex (some ⟨some (ascii "f"), none, true, none⟩) none).Short := by
      rintro f ⟨⟩
      exact ⟨by decide, by decide, by decide⟩
    have hfopen : (functionCall "fopen").Short := ⟨⟨by decide, by decide, by decide⟩, by decide⟩
    refine List.forall_mem_cons.mpr ⟨⟨by decide, by decide⟩, ?_⟩
    simp [userBody, Body.events, Event.Short, huser, hfopen]
  obtain ⟨w', v', hwrun, hvrun, hcontracts⟩ := io_contracts_full hreach rfl hreach rfl rfl
    (show plainRequest.uriAndMethod = debugRequest.uriAndMethod from rfl) (by decide +kernel)
    (by decide +kernel) (by decide +kernel) (by decide +kernel)
    (show userBody.blank = userBody.blank from rfl) hshort 0 0
  have hw : ((machine (fun _ => 0) lumbreWlStaticTable).run shipped
      (.rinit debugRequest :: (userBody.events ++ [.rshutdown 0]))).map
        (fun w => w.proc.finished.map fun r => r.rc) = some [0, 0, 0] := by
    decide +kernel
  have hv : ((machine (fun _ => 0) lumbreWlStaticTable).run shipped
      (.rinit plainRequest :: (userBody.events ++ [.rshutdown 0]))).map
        (fun w => w.proc.finished.map fun r => r.rc) = some [0, 0] := by
    decide +kernel
  rw [hwrun, Option.map_some, Option.some_inj] at hw
  rw [hvrun, Option.map_some, Option.some_inj] at hv
  have hwaccepted : ∀ rc ∈ w'.proc.finished.map fun r => r.rc, rc = 0 := by
    rw [hw]
    decide
  have hvaccepted : ∀ rc ∈ v'.proc.finished.map fun r => r.rc, rc = 0 := by
    rw [hv]
    decide
  exact ⟨w', v', hwrun, hvrun, hw, hv, hcontracts (by decide +kernel)
    (List.forall_mem_map.mp hwaccepted) (List.forall_mem_map.mp hvaccepted)⟩

end Worker

end LumbreExt
