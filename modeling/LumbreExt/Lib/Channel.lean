import LumbreExt.Lib.Simulation
import Mathlib.Algebra.BigOperators.Group.List.Basic
import Mathlib.Algebra.Ring.Nat

/-!
# A bounded first-in first-out channel

What a one-way queue between two parties is for, without knowledge of any program: messages are
accepted at one end and received at the other in the order of acceptance, the messages in between
never weigh more than a bound, and a message may be refused.

* `Channel.system` — the channel as a labelled system; `ChannelEvent` what it shows.
* `Channel.trace_accepted_eq` — what every trace of it shows: the accepted messages are the received
  ones followed by those in between, and the refusals are counted.
-/

namespace LumbreExt.Lib

/-- What an observer of a channel sees. -/
inductive ChannelEvent (α : Type*)
  /-- A message is accepted. -/
  | accept (msg : α)
  /-- A message is refused. -/
  | refuse
  /-- A message is received. -/
  | receive (msg : α)

/-- A channel: the messages in between, and how many have been refused. -/
structure Channel (α : Type*) where
  queue : List α
  refused : ℕ

namespace Channel

variable {α : Type*}

/-- The channel before the first message. -/
def empty : Channel α where
  queue := []
  refused := 0

/-- The steps of a channel whose messages weigh `weight` each and at most `bound` together. -/
inductive Step (weight : α → ℕ) (bound : ℕ) :
    Channel α → Option (ChannelEvent α) → Channel α → Prop
  | accept {c : Channel α} (msg : α) (hroom : ((c.queue ++ [msg]).map weight).sum ≤ bound) :
      Step weight bound c (some (.accept msg)) { c with queue := c.queue ++ [msg] }
  | refuse {c : Channel α} :
      Step weight bound c (some .refuse) { c with refused := c.refused + 1 }
  | receive {c : Channel α} {msg : α} {rest : List α} (hqueue : c.queue = msg :: rest) :
      Step weight bound c (some (.receive msg)) { c with queue := rest }

/-- The bounded channel. -/
def system (weight : α → ℕ) (bound : ℕ) : Labelled (Channel α) (ChannelEvent α) where
  Step := Step weight bound

end Channel

namespace ChannelEvent

variable {α : Type*}

/-- The accepted messages of a trace, in order. -/
def accepted (es : List (ChannelEvent α)) : List α :=
  es.filterMap fun
    | .accept msg => some msg
    | _ => none

/-- The received messages of a trace, in order. -/
def received (es : List (ChannelEvent α)) : List α :=
  es.filterMap fun
    | .receive msg => some msg
    | _ => none

/-- How many messages a trace refuses. -/
def refusals : List (ChannelEvent α) → ℕ
  | [] => 0
  | .refuse :: es => refusals es + 1
  | _ :: es => refusals es

lemma accepted_append (es fs : List (ChannelEvent α)) :
    accepted (es ++ fs) = accepted es ++ accepted fs :=
  List.filterMap_append

lemma received_append (es fs : List (ChannelEvent α)) :
    received (es ++ fs) = received es ++ received fs :=
  List.filterMap_append

lemma refusals_append (es fs : List (ChannelEvent α)) :
    refusals (es ++ fs) = refusals es + refusals fs := by
  induction es with
  | nil => exact (Nat.zero_add _).symm
  | cons e es ih =>
      cases e with
      | accept msg => exact ih
      | refuse =>
          change refusals (es ++ fs) + 1 = refusals es + 1 + refusals fs
          omega
      | receive msg => exact ih

end ChannelEvent

namespace Channel

open ChannelEvent

variable {α : Type*} {weight : α → ℕ} {bound : ℕ} {c : Channel α} {es : List (ChannelEvent α)}

/-- **First in, first out, exactly once.** Along every trace from the empty channel the accepted
messages are the received ones followed by those still in between, and every refusal is counted. -/
theorem trace_accepted_eq (h : (system weight bound).Trace empty es c) :
    accepted es = received es ++ c.queue ∧ refusals es = c.refused := by
  induction h with
  | refl => exact ⟨rfl, rfl⟩
  | silent _ hstep _ => cases hstep
  | @visible t u es e _ hstep ih =>
      obtain ⟨hfifo, hrefused⟩ := ih
      rw [accepted_append, received_append, refusals_append, hfifo, hrefused]
      cases hstep with
      | accept msg _ =>
          refine ⟨?_, rfl⟩
          change received es ++ t.queue ++ [msg] = received es ++ [] ++ (t.queue ++ [msg])
          rw [List.append_nil, List.append_assoc]
      | refuse => exact ⟨by change _ ++ [] = _ ++ [] ++ _; simp, rfl⟩
      | @receive msg rest hqueue =>
          refine ⟨?_, rfl⟩
          change received es ++ t.queue ++ [] = received es ++ [msg] ++ rest
          rw [hqueue, List.append_nil, List.append_assoc]
          rfl

end Channel

end LumbreExt.Lib
