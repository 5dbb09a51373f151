import LumbreExt.Lib.Weights
import LumbreExt.Module.Filter

/-!
# Where the time of a request goes

The durations that the finishes measure, against each other.

* `SpanRecord.nanoseconds` — the duration of a call as a number.
* `Replay.durations` — calls one after the other do not take more than the time that has passed, and
  no call is shorter than the calls made in it.
* `Worker.self_times` — the times that the calls of a request have spent in themselves add up to the
  duration of its root span.
-/

namespace LumbreExt

open Lib

/-- The duration of a call. -/
def SpanRecord.nanoseconds (s : SpanRecord) : ℕ := s.durationNs.toNat

/-- The clock as a number. -/
def Clock.at (clock : Clock) (t : ℕ) : ℕ := (clock t).toNat

lemma Clock.Monotonic.at_le {clock : Clock} (hclock : clock.Monotonic) {t t' : ℕ} (h : t ≤ t') :
    clock.at t ≤ clock.at t' := UInt64.le_iff_toNat_le.mp (hclock t t' h)

/-- A finish measures the time between two readings. -/
lemma Process.Finished.nanoseconds {clock : Clock} {p : Process} {span : LumbreSpan}
    {minDurationNs : UInt64} {r : FinishResult} {start : ℕ} (hclock : clock.Monotonic)
    (h : p.Finished clock span minDurationNs r) (hstart : span.startNs = clock start)
    (hle : start ≤ p.ticks) : r.span.durationNs.toNat = clock.at p.ticks - clock.at start := by
  rw [h.duration, hstart]
  exact UInt64.toNat_sub_of_le _ _ (hclock _ _ hle)

namespace Replay

variable {clock : Clock} {P : IniChange → Prop} {p p' : Process} {f : Forest SpanRecord}

/-- **The time that passes in a replay bounds that of its calls.** -/
theorem durations (hclock : clock.Monotonic) (h : Replay clock P p f p') :
    f.weight SpanRecord.nanoseconds ≤ clock.at p'.ticks - clock.at p.ticks ∧
      f.Bounded SpanRecord.nanoseconds := by
  induction h with
  | nil p => exact ⟨Nat.zero_le _, trivial⟩
  | iniSet change hchange hrest ih => cases change <;> exact ih
  | append hinner hrest ihinner ihrest =>
      have h₁ := hclock.at_le hinner.within.1
      have h₂ := hclock.at_le hrest.within.1
      refine ⟨?_, Forest.bounded_append.mpr ⟨ihinner.2, ihrest.2⟩⟩
      rw [Forest.weight_append]
      have := ihinner.1
      have := ihrest.1
      omega
  | @node p p₁ p₂ f g c type span r htype hspan hinner hfinish hrest ihinner ihrest =>
      have hle : p.ticks + 1 ≤ p₁.ticks := hinner.within.1
      have hstart : clock.at p.ticks ≤ clock.at (p.ticks + 1) := hclock.at_le (Nat.le_succ _)
      have hinside := hclock.at_le hle
      have hend : clock.at p₁.ticks ≤ clock.at (p₁.ticks + 1) := hclock.at_le (Nat.le_succ _)
      have hbehind : clock.at (p₁.ticks + 1) ≤ clock.at p₂.ticks := hclock.at_le hrest.within.1
      have hduration : SpanRecord.nanoseconds ⟨p.g.ctx, span, r⟩ =
          clock.at p₁.ticks - clock.at p.ticks :=
        hfinish.nanoseconds hclock (congrArg LumbreSpan.Identity.startNs hspan) (by omega)
      have hcalls : f.weight SpanRecord.nanoseconds ≤
          clock.at p₁.ticks - clock.at (p.ticks + 1) := ihinner.1
      have hrest' : g.weight SpanRecord.nanoseconds ≤
          clock.at p₂.ticks - clock.at (p₁.ticks + 1) := ihrest.1
      refine ⟨?_, ?_, ihinner.2, ihrest.2⟩
      · rw [Forest.weight, hduration]
        omega
      · rw [hduration]
        omega

end Replay

namespace Worker

/-- **The self times of a request add up to its duration.** In every run of a worker with a clock that
does not go back, for every traced request and every well-nested body of it (whatever the calls, the
changes of settings and the outcome of each finish): no span is shorter than the calls made directly
in it together, and what the spans have of their own beside these adds up to the duration of the root
span. -/
theorem self_times {clock : Clock} (hclock : clock.Monotonic) {table : List LumbreWlStaticEntry}
    {w : Worker} (hreach : (machine clock table).Reachable w) (hidle : w.running = false)
    (env : RequestEnv) (hactive : (w.proc.cleared.phpRinit clock env).g.ctx.active ≠ 0)
    (body : Body) (readPos : UInt64) :
    ∃ p root calls w',
      evalBody clock body (w.proc.cleared.phpRinit clock env) = some (p, calls) ∧
      (machine clock table).run w (.rinit env :: (body.events ++ [.rshutdown readPos])) = some w' ∧
      w'.proc.finished = (Forest.node root calls .nil).postorder.map (fun s => s.finish) ∧
      (Forest.node root calls .nil).Bounded SpanRecord.nanoseconds ∧
      ((Forest.node root calls .nil).own SpanRecord.nanoseconds).sum = root.nanoseconds := by
  obtain ⟨q, p, root, calls, r, w', hrequest, hrun, hproc⟩ :=
    exists_request hreach hidle env hactive body.allChanges_true readPos
  obtain ⟨hpassed, hcalls⟩ := hrequest.replay.durations hclock
  have hle : q.ticks + 1 ≤ p.ticks := hrequest.replay.within.1
  have hduration : SpanRecord.nanoseconds ⟨q.g.ctx, root, r⟩ =
      clock.at p.ticks - clock.at q.ticks :=
    hrequest.finish.nanoseconds hclock (congrArg LumbreSpan.Identity.startNs hrequest.begun.root)
      (by omega)
  have hstart : clock.at q.ticks ≤ clock.at (q.ticks + 1) := hclock.at_le (Nat.le_succ _)
  have hbounded : (Forest.node ⟨q.g.ctx, root, r⟩ calls .nil).Bounded SpanRecord.nanoseconds := by
    refine ⟨?_, hcalls, trivial⟩
    have hinside : calls.weight SpanRecord.nanoseconds ≤
      clock.at p.ticks - clock.at (q.ticks + 1) := hpassed
    rw [hduration]
    omega
  refine ⟨p, ⟨q.g.ctx, root, r⟩, calls, w', hrequest.eval, hrun, ?_, hbounded, hbounded.sum_own⟩
  rw [hproc]
  exact hrequest.finished

/-- A query that opens a file, with a clock that counts the readings. -/
theorem self_times_query :
    ∃ root calls w', (machine (fun t => UInt64.ofNat (min t 100)) lumbreWlStaticTable).run shipped
        (.rinit plainRequest :: (queryBody.events ++ [.rshutdown 0])) = some w' ∧
      w'.proc.finished.map (fun r => r.span.durationNs) = [1, 3, 5] ∧
      ((Forest.node root calls .nil).own SpanRecord.nanoseconds).sum = root.nanoseconds := by
  obtain ⟨_, root, calls, w', _, hrun, _, _, hsum⟩ :=
    self_times Clock.monotonic_counting (.start start_shipped) rfl plainRequest (by decide +kernel)
      queryBody 0
  have hdurations : ((machine (fun t => UInt64.ofNat (min t 100)) lumbreWlStaticTable).run shipped
      (.rinit plainRequest :: (queryBody.events ++ [.rshutdown 0]))).map
        (fun w => w.proc.finished.map fun r => r.span.durationNs) = some [1, 3, 5] := by
    decide +kernel
  rw [hrun, Option.map_some, Option.some_inj] at hdurations
  exact ⟨root, calls, w', hrun, hdurations, hsum⟩

end Worker

end LumbreExt
