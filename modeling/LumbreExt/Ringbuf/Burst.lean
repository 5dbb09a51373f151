import LumbreExt.Ringbuf.Capacity
import LumbreExt.Ringbuf.Sequential

/-!
# Bursts that fit are accepted

How much a ring takes while the daemon does not read. A message claims its frame and, where that
would reach over the end, the rest of the ring in front of it; over a burst the padding is paid at
most once.

* `claims` — the bytes a burst claims, from a given offset on. `claims_le`: if the frames alone fit
  into the ring, the claims exceed them by at most one padding, which is shorter than the longest
  frame.
* `callRing_of_reachable` — what holds of every ring under calls that find any value in
  `header->read_pos`.
* `burst_accepted_iff` — with the daemon at one position, a burst is accepted entirely exactly when
  what it claims fits next to the unread bytes.
-/

namespace LumbreExt

open Lib

/-! ## The claims of a burst -/

/-- What messages of the given lengths claim of a ring of `C` bytes, the first of them at offset
`o`. -/
def claims (C : ℕ) : ℕ → List ℕ → ℕ
  | _, [] => 0
  | o, n :: ns => claimed C o n + claims C ((o + claimed C o n) % C) ns

/-- The bytes of the frames alone. -/
def frameBytes (ns : List ℕ) : ℕ := (ns.map fun n => 4 + n).sum

lemma frameBytes_cons (n : ℕ) (ns : List ℕ) :
    frameBytes (n :: ns) = 4 + n + frameBytes ns := by
  rw [frameBytes, List.map_cons, List.sum_cons]
  rfl

lemma frameBytes_le {m : ℕ} {ns : List ℕ} (hlen : ∀ n ∈ ns, n ≤ m) :
    frameBytes ns ≤ (4 + m) * ns.length := by
  induction ns with
  | nil => exact Nat.zero_le _
  | cons n ns ih =>
      have hn := hlen n List.mem_cons_self
      have hrest := ih fun n' hn' => hlen n' (List.mem_cons_of_mem n hn')
      rw [frameBytes_cons, List.length_cons, Nat.mul_succ]
      omega

/-- Up to the end of the ring nothing is padded. -/
lemma claims_of_straight {C o : ℕ} {ns : List ℕ} (h : o + frameBytes ns ≤ C) :
    claims C o ns = frameBytes ns := by
  induction ns generalizing o with
  | nil => rfl
  | cons n ns ih =>
      rw [frameBytes_cons] at h ⊢
      have hclaim : claimed C o n = 4 + n := if_pos (by omega)
      have hnext : (o + (4 + n)) % C + frameBytes ns ≤ C := by
        rcases Nat.lt_or_ge (o + (4 + n)) C with hlt | hge
        · rw [Nat.mod_eq_of_lt hlt]
          omega
        · have hend : o + (4 + n) = C := by omega
          rw [hend, Nat.mod_self]
          omega
      rw [claims, hclaim, ih hnext]

/-- **A burst is padded at most once.** If its frames fit into the ring, it claims at most one padding
more, and that is shorter than the longest frame. -/
lemma claims_le {C o m : ℕ} {ns : List ℕ} (ho : o < C) (hlen : ∀ n ∈ ns, n ≤ m)
    (h : frameBytes ns ≤ C) : claims C o ns ≤ frameBytes ns + m + 3 := by
  induction ns generalizing o with
  | nil => exact Nat.zero_le _
  | cons n ns ih =>
      have hn := hlen n List.mem_cons_self
      rw [frameBytes_cons] at h ⊢
      unfold claims
      by_cases hend : o + (4 + n) ≤ C
      · have hclaim : claimed C o n = 4 + n := if_pos hend
        have hrest := ih (Nat.mod_lt (o + (4 + n)) (by omega))
          (fun n' hn' => hlen n' (List.mem_cons_of_mem n hn')) (by omega)
        rw [hclaim]
        omega
      · -- the padding; behind it the rest of the burst does not reach the end again
        have hclaim : claimed C o n = C - o + (4 + n) := if_neg hend
        have hnext : (o + (C - o + (4 + n))) % C + frameBytes ns ≤ C := by
          have hsum : o + (C - o + (4 + n)) = C + (4 + n) := by omega
          rw [hsum, Nat.add_mod_left]
          have hmod := Nat.mod_le (4 + n) C
          omega
        rw [hclaim, claims_of_straight hnext]
        omega

/-- The claims of one message more. -/
lemma claims_append_singleton {C o n : ℕ} (ho : o < C) (ns : List ℕ) :
    claims C o (ns ++ [n]) = claims C o ns + claimed C ((o + claims C o ns) % C) n := by
  induction ns generalizing o with
  | nil =>
      change claimed C o n + 0 = 0 + claimed C (o % C) n
      rw [Nat.mod_eq_of_lt ho, Nat.zero_add]
      rfl
  | cons m ns ih =>
      rw [List.cons_append, claims, claims, ih (Nat.mod_lt _ (by omega)), Nat.mod_add_mod,
        Nat.add_assoc, Nat.add_assoc]

/-! ## Rings under calls -/

/-- What holds of a ring of `2 ^ k` bytes between calls, whatever `header->read_pos` is. -/
structure CallRing (k : ℕ) (rb : LumbreRingbuf) : Prop where
  geometry : Geometry rb k
  writePos_eq : rb.header.writePos = rb.localWritePos

/-- One call of a run is accepted. -/
def Accepted (rb : LumbreRingbuf) (c : WriteCall) : Prop := (c.ops rb).1 = 0

/-- The call sees the daemon at the position `r₀` or further on. -/
def SeesSince (r₀ : UInt64) (rb : LumbreRingbuf) (c : WriteCall) : Prop :=
  c.readPos - r₀ ≤ rb.localWritePos - r₀

section burst

variable {k : ℕ} {rb : LumbreRingbuf} {r₀ : UInt64} {c : WriteCall} {cs : List WriteCall}

lemma CallRing.consistent (h : CallRing k rb) {readPos : UInt64} (hused : rb.used readPos ≤ 2 ^ k) :
    Consistent k (rb.withReadPos readPos) :=
  ⟨h.geometry.withReadPos readPos, h.writePos_eq, hused⟩

/-- A call publishes all it has written. -/
lemma CallRing.after (h : CallRing k rb) (hk : 2 ≤ k) (c : WriteCall) : CallRing k (c.after rb) := by
  refine ⟨h.geometry.after c, ?_⟩
  unfold WriteCall.after lumbreRingbufWrite
  dsimp only
  rcases lumbreRingbufWriteOps_cases (h.geometry.withReadPos c.readPos) hk c.readPos c.payload
    c.payloadLen with ⟨_, hops⟩ | ⟨_, hops⟩ | ⟨_, hops⟩
  · rw [show (rb.withReadPos c.readPos).header.readPos = c.readPos from rfl, hops]
    exact h.writePos_eq
  · rw [show (rb.withReadPos c.readPos).header.readPos = c.readPos from rfl, hops,
      LumbreRingbuf.execAll_frameOps]
  · rw [show (rb.withReadPos c.readPos).header.readPos = c.readPos from rfl, hops]
    dsimp only
    rw [LumbreRingbuf.execAll_padded]

/-- **Every reachable ring is one.** -/
lemma callRing_of_reachable {capacity : UInt32} (hcap : (lumbreNextPowerOf2 capacity).toNat = 2 ^ k)
    (hk : 2 ≤ k) (h : (callMachine capacity).Reachable rb) : CallRing k rb := by
  refine h.invariant (I := CallRing k) ?_ ?_
  · intro rb hinit
    obtain ⟨fd, path, pid, workerId, rfl⟩ := hinit.eq_openRing
    exact ⟨Geometry.openRing hcap, rfl⟩
  · intro rb c rb' hrb hstep
    obtain rfl := Option.some.inj hstep
    exact hrb.after hk c

/-- The bytes that are unread at a later position are no more. -/
lemma used_le_of_seesSince (h : SeesSince r₀ rb c) : rb.used c.readPos ≤ rb.used r₀ := by
  have hsplit : rb.localWritePos - c.readPos =
      (rb.localWritePos - r₀) - (c.readPos - r₀) := by
    grind
  unfold LumbreRingbuf.used
  rw [hsplit, UInt64.toNat_sub_of_le _ _ h]
  exact Nat.sub_le _ _

/-- Where one call of a burst leads, if what it claims fits behind the position `r₀`. -/
lemma CallRing.accepts (h : CallRing k rb) (hk : 2 ≤ k) (hseen : SeesSince r₀ rb c)
    (hroom : rb.used r₀ + claimed (2 ^ k) rb.offset c.payloadLen.toNat ≤ 2 ^ k) :
    Accepted rb c ∧
      (c.after rb).used r₀ = rb.used r₀ + claimed (2 ^ k) rb.offset c.payloadLen.toNat ∧
      (c.after rb).offset =
        (rb.offset + claimed (2 ^ k) rb.offset c.payloadLen.toNat) % 2 ^ k := by
  have hle := used_le_of_seesSince hseen
  have hcap := h.geometry.capacity_le
  have hk31 := h.geometry.k_le
  have hconsistent : Consistent k (rb.withReadPos c.readPos) := h.consistent (by omega)
  have hwrite := lumbreRingbufWrite_eq hconsistent hk c.payload c.payloadLen
  have hmsg : (c.payload.load 0 c.payloadLen.toNat).length = c.payloadLen.toNat :=
    Mem.load_length c.payload 0 c.payloadLen.toNat
  have hfits : (rb.withReadPos c.readPos).unread +
      claimed (2 ^ k) (rb.withReadPos c.readPos).offset c.payloadLen.toNat ≤ 2 ^ k := by
    change rb.used c.readPos + claimed (2 ^ k) rb.offset c.payloadLen.toNat ≤ 2 ^ k
    omega
  rw [if_pos hfits] at hwrite
  have hafter : c.after rb = (rb.withReadPos c.readPos).afterMessage (2 ^ k)
      (c.payload.load 0 c.payloadLen.toNat) := congrArg Prod.snd hwrite
  have hpos : (c.after rb).localWritePos =
      rb.localWritePos + UInt64.ofNat (claimed (2 ^ k) rb.offset c.payloadLen.toNat) := by
    rw [hafter, LumbreRingbuf.afterMessage, hmsg]
    rfl
  refine ⟨congrArg Prod.fst hwrite, ?_, ?_⟩
  · have hsplit : (c.after rb).localWritePos - r₀ = (rb.localWritePos - r₀) +
        UInt64.ofNat (claimed (2 ^ k) rb.offset c.payloadLen.toNat) := by
      rw [hpos]
      grind
    unfold LumbreRingbuf.used at hroom ⊢
    rw [hsplit, UInt64.toNat_add, toNat_counter]
    omega
  · unfold LumbreRingbuf.offset
    rw [(h.geometry.after c).capacity, h.geometry.capacity, hpos, toNat_add_counter_mod (by omega)]
    simp only [LumbreRingbuf.offset, h.geometry.capacity, Nat.mod_add_mod]

/-- **What fits is accepted.** If the claims of a burst fit next to the bytes that are unread at `r₀`,
every call that sees the daemon at `r₀` or further on is accepted. -/
lemma CallRing.burst (h : CallRing k rb) (hk : 2 ≤ k)
    (hseen : AllCalls (SeesSince r₀) rb cs)
    (hroom : rb.used r₀ + claims (2 ^ k) rb.offset (cs.map fun c => c.payloadLen.toNat) ≤ 2 ^ k) :
    AllCalls Accepted rb cs := by
  induction cs generalizing rb with
  | nil => trivial
  | cons c cs ih =>
      obtain ⟨hfirst, hrest⟩ := hseen
      rw [List.map_cons, claims] at hroom
      obtain ⟨haccepted, hused, hoffset⟩ := h.accepts hk hfirst (by omega)
      refine ⟨haccepted, ih (h.after hk c) hrest ?_⟩
      rw [hused, hoffset]
      omega

/-- What does not fit is refused: a burst accepted with the daemon at one position fits. -/
lemma CallRing.fits_of_accepted (h : CallRing k rb) (hk : 2 ≤ k)
    (hconst : ∀ c ∈ cs, c.readPos = r₀) (hused : rb.used r₀ ≤ 2 ^ k)
    (hall : AllCalls Accepted rb cs) :
    rb.used r₀ + claims (2 ^ k) rb.offset (cs.map fun c => c.payloadLen.toNat) ≤ 2 ^ k := by
  induction cs generalizing rb with
  | nil => exact hused
  | cons c cs ih =>
      obtain ⟨hfirst, hrest⟩ := hall
      have hc := hconst c List.mem_cons_self
      have hconsistent : Consistent k (rb.withReadPos c.readPos) := h.consistent (by rwa [hc])
      have hwrite := lumbreRingbufWrite_eq hconsistent hk c.payload c.payloadLen
      have hroom : rb.used r₀ + claimed (2 ^ k) rb.offset c.payloadLen.toNat ≤ 2 ^ k := by
        by_contra hfull
        rw [if_neg (show ¬ (rb.withReadPos c.readPos).unread +
          claimed (2 ^ k) (rb.withReadPos c.readPos).offset c.payloadLen.toNat ≤ 2 ^ k from by
            rw [hc]; exact hfull)] at hwrite
        have hrc : (c.ops rb).1 = -1 := congrArg Prod.fst hwrite
        have hzero : (c.ops rb).1 = 0 := hfirst
        rw [hrc] at hzero
        exact absurd hzero (by decide)
      have hseen : SeesSince r₀ rb c := by
        unfold SeesSince
        rw [hc, UInt64.sub_self]
        exact UInt64.zero_le
      obtain ⟨_, hused', hoffset⟩ := h.accepts hk hseen hroom
      have htail := ih (h.after hk c) (fun c' hc' => hconst c' (List.mem_cons_of_mem c hc'))
        (by rw [hused']; exact hroom) hrest
      rw [hused', hoffset] at htail
      rw [List.map_cons, claims]
      omega

/-- Calls that see the daemon at one position see it since that position. -/
lemma allCalls_seesSince (hconst : ∀ c ∈ cs, c.readPos = r₀) : AllCalls (SeesSince r₀) rb cs := by
  induction cs generalizing rb with
  | nil => trivial
  | cons c cs ih =>
      refine ⟨?_, ih fun c' hc' => hconst c' (List.mem_cons_of_mem c hc')⟩
      unfold SeesSince
      rw [hconst c List.mem_cons_self, UInt64.sub_self]
      exact UInt64.zero_le

/-- **When a burst is accepted.** On every reachable ring of `2 ^ k ≥ 4` bytes, with the daemon at one
position throughout and at most the capacity unread: all messages of a burst are accepted if and only
if what they claim, from the offset of the ring on, fits next to the unread bytes. -/
theorem burst_accepted_iff {capacity : UInt32}
    (hcap : (lumbreNextPowerOf2 capacity).toNat = 2 ^ k) (hk : 2 ≤ k)
    (hreach : (callMachine capacity).Reachable rb) (hconst : ∀ c ∈ cs, c.readPos = r₀)
    (hused : rb.used r₀ ≤ 2 ^ k) :
    AllCalls Accepted rb cs ↔
      rb.used r₀ + claims (2 ^ k) rb.offset (cs.map fun c => c.payloadLen.toNat) ≤ 2 ^ k := by
  have h := callRing_of_reachable hcap hk hreach
  exact ⟨h.fits_of_accepted hk hconst hused, h.burst hk (allCalls_seesSince hconst)⟩

/-- Two messages of four bytes. -/
def twoMessages : List WriteCall := [⟨0, fun _ => 1, 4⟩, ⟨0, fun _ => 2, 4⟩]

/-- They fill the ring of 16 bytes. -/
theorem burst_accepted_iff_sixteen : AllCalls Accepted (freshRing 16) twoMessages := by
  have hconst : ∀ c ∈ twoMessages, c.readPos = 0 := by decide
  apply (burst_accepted_iff (k := 4) (by decide) (by decide) (.start (initialised_freshRing 16))
    hconst (by decide)).mpr
  decide

end burst

end LumbreExt
