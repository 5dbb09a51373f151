import LumbreExt.Module.System
import LumbreExt.Span.Size

/-!
# How many spans the ring takes without the daemon

The worker and the daemon from a state between calls on. No span takes more than the msgpack buffer,
so the unread bytes of that state and the number of spans finished since bound what is claimed of the
ring, even if the daemon does not take a single step.

* `System.ObservesSince` — calls see the daemon where it had been at the start, or further on.
* `Spsc.due` — where the producer will stand when the call in progress is over.
* `System.nothing_refused` — while the bound holds, the ring refuses no span.
-/

namespace LumbreExt

open Lib

/-! ## One message -/

/-- No span takes more than the msgpack buffer. -/
lemma FinishCall.payloadLen_le {fc : FinishCall} {wc : WriteCall} (hspan : fc.span.WellFormed)
    (hcap : fc.mpBuf.capacity = lumbreMsgpackBufSize) (h : fc.written = some wc) :
    wc.payloadLen.toNat ≤ 16384 := by
  have hwell := hspan.recorded fc.maxQueryLen fc.clockNs
  unfold written at h
  dsimp only at h
  split_ifs at h with hfilter hover
  obtain rfl := Option.some_inj.mp h
  have hzero : (lumbreSpanEncode (fc.span.recorded fc.maxQueryLen fc.clockNs)
      (lumbreMsgpackReset fc.mpBuf)).1 = 0 := by
    rw [lumbreSpanEncode_eq_packAll] at hover ⊢
    have hrcs := packAll_rc (fc.span.recorded fc.maxQueryLen fc.clockNs).items
      (lumbreMsgpackReset fc.mpBuf)
    omega
  have hsize := (lumbreSpanEncode_rc_iff hwell fc.mpBuf).mp hzero
  have hpos := (lumbreSpanEncode_written hwell hzero).1
  rw [hcap, show lumbreMsgpackBufSize.toNat = 16384 from rfl, ← hpos] at hsize
  change (lumbreSpanEncode _ _).2.pos.toUInt32.toNat ≤ 16384
  rw [UInt64.toNat_toUInt32]
  exact Nat.le_trans (Nat.mod_le _ _) hsize

/-- The room a call finds decides about it. -/
lemma writeOps_of_room {rb : LumbreRingbuf} {k : ℕ} (hg : Geometry rb k) (hk : 2 ≤ k)
    {readPos : UInt64} (payload : Mem) {payloadLen : UInt32}
    (hroom : rb.used readPos + claimed (2 ^ k) rb.offset payloadLen.toNat ≤ 2 ^ k) :
    (lumbreRingbufWriteOps rb readPos payload payloadLen).1 = 0 ∧
      pendingAdvance (lumbreRingbufWriteOps rb readPos payload payloadLen).2 =
        claimed (2 ^ k) rb.offset payloadLen.toNat := by
  have hcap := hg.capacity_le
  have hoffset := hg.offset_lt
  have hmsg : (payload.load 0 payloadLen.toNat).length = payloadLen.toNat :=
    Mem.load_length payload 0 payloadLen.toNat
  have hframe : ∀ a, 4 + payloadLen.toNat ≤ 2 ^ k →
      pendingAdvance (frameOps a (payload.load 0 payloadLen.toNat)) = 4 + payloadLen.toNat := by
    intro a hfit
    rw [frameOps_eq, pendingAdvance_append, pendingAdvance_frameLocalOps (by omega), hmsg]
    rfl
  unfold claimed at hroom ⊢
  rcases lumbreRingbufWriteOps_cases hg hk readPos payload payloadLen with
    ⟨hrefused, _⟩ | ⟨⟨hfit, _, hend⟩, hops⟩ | ⟨⟨hfit, _, hend, _⟩, hops⟩
  · exfalso
    rcases hrefused with hlong | hfull | ⟨hend, hfull⟩
    · split_ifs at hroom <;> omega
    · split_ifs at hroom <;> omega
    · split_ifs at hroom <;> omega
  · rw [hops, if_pos hend]
    exact ⟨rfl, hframe _ hfit⟩
  · rw [hops, if_neg (by omega), pendingAdvance_append, pendingAdvance_padOps (by omega),
      hframe 0 hfit]
    exact ⟨rfl, rfl⟩

/-! ## The producer's position -/

namespace Spsc

/-- The count the producer stands at when the call in progress is over. -/
def due (c : Spsc) : ℕ := c.written + pendingAdvance c.ops

variable {c c' : Spsc}

lemma due_perform {op : WriteOp} {rest : List WriteOp} (hops : c.ops = op :: rest) :
    (c.perform op rest).due = c.due := by
  unfold due perform
  rw [hops]
  exact Nat.add_assoc _ _ _

lemma due_of_idle (hidle : c.ops = []) : c.due = c.written := by
  rw [due, hidle]
  rfl

/-- A step of the daemon's loop does not move the producer. -/
lemma ConsumerStep.due_eq (h : ConsumerStep c c') : c'.due = c.due := by
  have hwritten : c'.written = c.written := by
    cases h with
    | readHeader _ _ =>
        unfold Spsc.readHeader
        dsimp only
        split_ifs <;> rfl
    | readRestart _ => rfl
    | deliver _ => rfl
  rw [due, due, hwritten, h.producer_eq.2.1]

/-- What a call that starts finds: the offset, and the unread bytes behind the count it sees. -/
lemma Inv.call_geometry {k n : ℕ} (h : Inv k c) (hle : n ≤ c.written) (hobs : ObservesRecent c n) :
    c.rb.offset = c.written % 2 ^ k ∧ c.rb.used (UInt64.ofNat n) = c.written - n := by
  have hk := h.geometry.k_le
  rw [ObservesRecent] at hobs
  refine ⟨?_, ?_⟩
  · rw [LumbreRingbuf.offset, h.localWritePos_eq, h.geometry.capacity,
      counter_mod_two_pow (by omega)]
  · rw [LumbreRingbuf.used, h.localWritePos_eq, toNat_counter_sub hle (by omega)]

end Spsc

namespace System

/-- A call sees the position `r₀`, published before, or a later one. -/
def ObservesSince (r₀ : ℕ) (c : Spsc) (n : ℕ) : Prop := Spsc.ObservesRecent c n ∧ r₀ ≤ n

/-- The bytes of the ring that `n` spans may claim, at most: their frames and one padding. -/
def spansRoom (n : ℕ) : ℕ := 16388 * n + 16387

lemma spansRoom_mono {m n : ℕ} (h : m ≤ n) : spansRoom m ≤ spansRoom n :=
  Nat.add_le_add_right (Nat.mul_le_mul_left 16388 h) 16387

/-! ## Runs -/

variable {k r₀ : ℕ} {clock : Clock} {s₀ s s' : System} {c₀ : Spsc}

/-- What holds in a run from the state `s₀`, with the ring `c₀`, on. -/
structure Spare (clock : Clock) (k : ℕ) (s₀ : System) (c₀ : Spsc) (s : System) : Prop where
  reachable : (Worker.machine clock lumbreWlStaticTable).Reachable s.worker
  coupled : Coupled k s
  readable : Readable s
  claimed : ∃ c new lens, s.ring = some c ∧ s.log = s₀.log ++ new ∧
    (∀ r ∈ new, r.outcome ≠ .refused) ∧ lens.length ≤ new.length ∧ (∀ n ∈ lens, n ≤ 16384) ∧
    c.due = c₀.written + claims (2 ^ k) (c₀.written % 2 ^ k) lens

/-- Steps that see the daemon since `r₀` see it recently. -/
lemma Step.recent {Allowed : Event → Prop} (h : Step clock Allowed (ObservesSince r₀) s s') :
    Step clock Allowed Spsc.ObservesRecent s s' :=
  h.mono (fun _ he => he) fun _ _ hobs => hobs.1

/-- The log only grows. -/
lemma Step.log_prefix {Allowed : Event → Prop} {Observes : Spsc → ℕ → Prop}
    (h : Step clock Allowed Observes s s') : s.log <+: s'.log := by
  rcases h.worker_cases with ⟨_, _, _, hlog | ⟨r, hlog, _⟩⟩ | ⟨_, hlog⟩
  · exact ⟨[], by rw [hlog, List.append_nil]⟩
  · exact ⟨[r], hlog.symm⟩
  · exact ⟨[], by rw [hlog, List.append_nil]⟩

/-- **One finish.** While the bound holds, what is handed over is accepted. -/
lemma RingCoupled.finish_accepted {c : Spsc} {rb : LumbreRingbuf} {log : List FinishResult}
    (h : RingCoupled k c rb log) (hk : 2 ≤ k) (hr : r₀ ≤ c₀.written) (hidle : c.ops = [])
    {fc : FinishCall} {n m : ℕ} {lens : List ℕ} (hspan : fc.span.WellFormed)
    (hcapacity : fc.mpBuf.capacity = lumbreMsgpackBufSize) (hreadPos : fc.readPos = UInt64.ofNat n)
    (hn : n ∈ c.published) (hobs : ObservesSince r₀ c n) (hlens : lens.length ≤ m)
    (hle : ∀ n ∈ lens, n ≤ 16384)
    (hdue : c.due = c₀.written + claims (2 ^ k) (c₀.written % 2 ^ k) lens)
    (hroom : c₀.written - r₀ + spansRoom (m + 1) ≤ 2 ^ k) :
    (fc.result rb).outcome ≠ .refused ∧ ∃ lens', lens'.length ≤ m + 1 ∧
      (∀ n ∈ lens', n ≤ 16384) ∧ (finishOn c (fc.result rb) n).due =
        c₀.written + claims (2 ^ k) (c₀.written % 2 ^ k) lens' := by
  rw [Spsc.due_of_idle hidle] at hdue
  rcases fc.result_cases rb with
    ⟨_, hhanded, _, _, houtcome⟩ | ⟨wc, hwritten, hwc, hhanded, _, hrc, hbuf, hpos⟩
  · refine ⟨houtcome, lens, Nat.le_succ_of_le hlens, hle, ?_⟩
    rw [finishOn, hhanded]
    exact (Spsc.due_of_idle hidle).trans hdue
  have hfinish : finishOn c (fc.result rb) n = c.beginWrite wc.payload wc.payloadLen n := by
    rw [finishOn, hhanded, hbuf, hpos]
    exact if_pos rfl
  have hlen := fc.payloadLen_le hspan hcapacity hwritten
  have hseen : n ≤ c.written := by
    have hconsumed := h.inv.published_le n hn
    have hannounced := h.inv.consumed_le
    have hproduced := h.inv.producer.announced_le_written
    omega
  obtain ⟨hoffset, hused⟩ := h.inv.call_geometry hseen hobs.1
  -- what all the messages so far and this one claim
  have hle' : ∀ n ∈ lens ++ [wc.payloadLen.toNat], n ≤ 16384 := by
    intro n' hn'
    rcases List.mem_append.mp hn' with hold | hnew
    · exact hle n' hold
    · rw [List.mem_singleton.mp hnew]
      exact hlen
  have hpos2 := Nat.two_pow_pos k
  have hsum := claims_append_singleton (n := wc.payloadLen.toNat)
    (Nat.mod_lt c₀.written hpos2) lens
  rw [Nat.mod_add_mod, ← hdue] at hsum
  have hbytes := frameBytes_le hle'
  rw [List.length_append, List.length_singleton] at hbytes
  have hcount : (4 + 16384) * (lens.length + 1) ≤ 16388 * (m + 1) := by omega
  unfold spansRoom at hroom
  have hclaims := claims_le (Nat.mod_lt c₀.written hpos2) hle' (by omega)
  have hsince := hobs.2
  have hcall : c.rb.used (UInt64.ofNat n) +
      claimed (2 ^ k) c.rb.offset wc.payloadLen.toNat ≤ 2 ^ k := by
    rw [hused, hoffset]
    omega
  obtain ⟨hzero, hadvance⟩ := writeOps_of_room h.inv.geometry hk wc.payload hcall
  have hsame : (wc.ops rb).1 = 0 := by
    rw [WriteCall.ops, hwc, hreadPos, ← lumbreRingbufWriteOps_congr (h.agrees_of_idle hidle)]
    exact hzero
  refine ⟨?_, lens ++ [wc.payloadLen.toNat], ?_, hle', ?_⟩
  · rw [FinishResult.outcome, hrc, if_pos hsame]
    decide
  · rw [List.length_append, List.length_singleton]
    omega
  · rw [hfinish, hsum, ← Nat.add_assoc, ← hdue, ← hoffset, ← hadvance]
    rfl

/-- **Every step within the bound preserves it.** -/
lemma Spare.step (h : Spare clock k s₀ c₀ s) (hk : 2 ≤ k) (hr : r₀ ≤ c₀.written)
    (hstep : Step clock Event.Short (ObservesSince r₀) s s')
    (hroom : c₀.written - r₀ + spansRoom (s'.log.length - s₀.log.length) ≤ 2 ^ k) :
    Spare clock k s₀ c₀ s' := by
  have hsafe := Worker.safe_of_reachable h.reachable
  have hcoupled' := h.coupled.step hk hstep.recent
  have hreadable' := h.readable.step (Worker.whitelist_of_reachable h.reachable) hsafe hstep
  have hreachable' : (Worker.machine clock lumbreWlStaticTable).Reachable s'.worker := by
    rcases hstep.worker_cases with ⟨e, _, hworker, _⟩ | ⟨hsame, _⟩
    · exact h.reachable.step hworker
    · exact hsame ▸ h.reachable
  refine ⟨hreachable', hcoupled', hreadable', ?_⟩
  obtain ⟨c, new, lens, hring, hlog, hkept, hlens, hle, hdue⟩ := h.claimed
  cases hstep with
  | event _ _ _ _ =>
      refine ⟨c, new, lens, ?_, hlog, hkept, hlens, hle, hdue⟩
      rw [hring]
      rfl
  | @finish c' e w r n hring' hidle hshort hworker hfinished he hn hobs =>
      obtain rfl := Option.some_inj.mp (hring'.symm.trans hring)
      obtain ⟨rb, hrb, hcoupled⟩ := h.coupled.opened _ hring
      obtain ⟨rb', fc, he', hspan, hbuf, hring'', _, rfl⟩ :=
        (Worker.effect_of_step hsafe hworker).1.exists_finish hfinished
      obtain rfl := Option.some_inj.mp (hring''.symm.trans hrb)
      obtain ⟨hwellFormed, hcapacity⟩ := h.readable.sound.finish hsafe hspan hring'' hbuf
      have hlength : (s.log ++ [fc.result rb']).length - s₀.log.length = new.length + 1 := by
        rw [hlog]
        simp only [List.length_append, List.length_singleton]
        omega
      rw [hlength] at hroom
      obtain ⟨houtcome, lens', hlens', hle', hdue'⟩ := hcoupled.finish_accepted hk hr hidle
        hwellFormed hcapacity (readPos_of_event he' he) hn hobs hlens hle hdue hroom
      refine ⟨_, new ++ [fc.result rb'], lens', rfl, ?_, ?_, ?_, hle', hdue'⟩
      · rw [hlog, List.append_assoc]
      · intro r hr
        rcases List.mem_append.mp hr with hold | hlast
        · exact hkept r hold
        · rw [List.mem_singleton.mp hlast]
          exact houtcome
      · rw [List.length_append, List.length_singleton]
        exact hlens'
  | @perform c' op rest hring' hops =>
      obtain rfl := Option.some_inj.mp (hring'.symm.trans hring)
      exact ⟨_, new, lens, rfl, hlog, hkept, hlens, hle, (Spsc.due_perform hops).trans hdue⟩
  | @consume c' c'' hring' hconsume =>
      obtain rfl := Option.some_inj.mp (hring'.symm.trans hring)
      exact ⟨_, new, lens, rfl, hlog, hkept, hlens, hle, hconsume.due_eq.trans hdue⟩
  | @publish c' hring' =>
      obtain rfl := Option.some_inj.mp (hring'.symm.trans hring)
      exact ⟨_, new, lens, rfl, hlog, hkept, hlens, hle, hdue⟩

/-- **No span is refused while the bound holds.** In the shipped module with a ring of `2 ^ k` bytes
and short strings, from any state between calls on, whatever the daemon does: if the bytes behind a
position `r₀` it has published and 16388 for each span finished since, and 16387 once, fit into the
ring, and calls see that position or a later one, then none of these spans is refused, and between
calls `header->dropped` is what it was. A drained ring of the default size takes 254 spans. -/
theorem nothing_refused {w : Worker} (hw : Worker.Start lumbreWlStaticTable w)
    (hcap : (lumbreNextPowerOf2 w.proc.g.ringCapacity).toNat = 2 ^ k) (hk : 2 ≤ k)
    (h : Reachable clock Event.Short Spsc.ObservesRecent w s₀) (hring : s₀.ring = some c₀)
    (hidle : c₀.ops = []) (hr : r₀ ∈ c₀.published)
    (hrun : Relation.ReflTransGen (Step clock Event.Short (ObservesSince r₀)) s₀ s)
    (hroom : c₀.written - r₀ + spansRoom (s.log.length - s₀.log.length) ≤ 2 ^ k) :
    ∃ new, s.log = s₀.log ++ new ∧ (∀ r ∈ new, r.outcome ≠ .refused) ∧
      ∀ c, s.ring = some c → c.ops = [] → c.rb.header.dropped = c₀.rb.header.dropped := by
  have hcoupled₀ := coupled_of_reachable hw hcap hk h
  obtain ⟨rb₀, _, hring₀⟩ := hcoupled₀.opened c₀ hring
  have hwritten : r₀ ≤ c₀.written := by
    have hconsumed := hring₀.inv.published_le r₀ hr
    have hannounced := hring₀.inv.consumed_le
    have hproduced := hring₀.inv.producer.announced_le_written
    omega
  have hspare : Spare clock k s₀ c₀ s := by
    induction hrun with
    | refl =>
        exact ⟨worker_reachable hw h, hcoupled₀, readable_of_reachable hw h, c₀, [], [], hring,
          (List.append_nil _).symm, fun r hr => absurd hr List.not_mem_nil, Nat.le_refl 0,
          fun n hn => absurd hn List.not_mem_nil, Spsc.due_of_idle hidle⟩
    | @tail s₁ s₂ _ hstep ih =>
        have hlonger := hstep.log_prefix.length_le
        have hfewer := spansRoom_mono (Nat.sub_le_sub_right hlonger s₀.log.length)
        exact (ih (Nat.le_trans (Nat.add_le_add_left hfewer _) hroom)).step hk hwritten hstep hroom
  obtain ⟨_, new, _, _, hlog, hkept, _⟩ := hspare.claimed
  refine ⟨new, hlog, hkept, ?_⟩
  intro c hc hidle'
  obtain ⟨rb, _, hcoupled⟩ := hspare.coupled.opened c hc
  have hnone : new.countP (fun r => r.outcome = .refused) = 0 := by
    rw [List.countP_eq_zero]
    exact fun r hr => by simpa using hkept r hr
  rw [hcoupled.dropped_eq hidle', hring₀.dropped_eq hidle, hlog, List.countP_append, hnone,
    Nat.add_zero]

/-- The default size of the ring, drained. -/
example : spansRoom 254 ≤ 2 ^ 22 ∧ ¬ spansRoom 255 ≤ 2 ^ 22 := by decide

/-- The spans of a request with nested calls, in a fresh ring. -/
theorem nothing_refused_traced_request :
    ∃ s₀ s c₀ c new, Reachable countingClock Event.Short Spsc.ObservesRecent Worker.shipped s₀ ∧
      Relation.ReflTransGen (Step countingClock Event.Short (ObservesSince 0)) s₀ s ∧
      s₀.ring = some c₀ ∧ s.ring = some c ∧ s.log = s₀.log ++ new ∧
      new.map (fun r => r.span.fields) = tracedSpans ∧ (∀ r ∈ new, r.outcome ≠ .refused) ∧
      c.rb.header.dropped = c₀.rb.header.dropped := by
  obtain ⟨w₁, rb, s, c, hopened, hsteps, hc, huntouched, hspans, _, _⟩ :=
    exists_tracedRequest Event.Short ⟨by decide, by decide⟩ tracedCalls_short
  have hsince : Relation.ReflTransGen (Step countingClock Event.Short (ObservesSince 0))
      ⟨w₁, some (.initial rb), []⟩ s :=
    hsteps.lift id fun _ _ hstep =>
      hstep.mono (fun _ he => he) fun _ n hobs => ⟨hobs, Nat.zero_le n⟩
  have hlength : s.log.length = 3 := by
    rw [← List.length_map, hspans]
    rfl
  obtain ⟨new, hlog, hkept, hdropped⟩ := nothing_refused (k := 22) Worker.start_shipped
    (by decide +kernel) (by decide) hopened rfl rfl (List.mem_singleton.mpr rfl) hsince
    (show 0 - 0 + spansRoom (s.log.length - 0) ≤ 2 ^ 22 by rw [hlength]; decide)
  have hnew : s.log = new := hlog
  exact ⟨_, s, _, c, new, hopened, hsince, rfl, hc, hlog, hnew ▸ hspans, hkept,
    hdropped c hc huntouched.idle⟩

end System

end LumbreExt
