import LumbreExt.Module.Files

/-!
# The workers of a host

All workers that write into the shared-memory directory: the threads of any number of processes, each
with its ring and a daemon that reads it.

* `lumbreWorkerId` — the id a worker takes: in a thread-safe build from a counter of its process.
* `System.seeing` — rings whose files have one name are one memory: what is stored through one mapping
  is there in the other.
* `Host`, `HostState`, `Host.Step` — the threads run as in `System.Step`; a RINIT that opens a ring
  takes the id from the counter of the process, and is given the pid of the process.
* `Host.Owned` — the names of the files are all different.
* `Host.Owned.step` — every step preserves it, while the counter has not wrapped around.
* `Host.single_producer` — so each file has one producer, and the results about one worker apply.

No process forks once a thread of it has opened a ring. FPM forks its workers before their first
request; the child of a `pcntl_fork` would keep `ringbuf_initialized` and the mapping of its parent,
and both would write into one ring.
-/

namespace LumbreExt

open Lib

/-- The id, and the counter behind it: `ZTS` is the thread-safe build of PHP.
Source: `php_lumbre.c`, `lumbre_worker_id` -/
def lumbreWorkerId (zts : Bool) (workerCounter : UInt64) : UInt64 × UInt64 :=
  if zts then (workerCounter, workerCounter + 1) else (0, workerCounter)

/-! ## One memory under one name -/

/-- The ring when another mapping of its file is in the state `c'`: the header, the data and the
positions that have been stored to `read_pos` are shared. -/
def Spsc.mapped (c c' : Spsc) : Spsc :=
  { c with
    rb := { c.rb with header := c'.rb.header, data := c'.rb.data }
    published := c'.published }

namespace System

/-- The name of the file of the ring. -/
def path (x : System) : Option (List UInt8) := x.worker.proc.label.map RingLabel.path

/-- The files of two rings have one name. -/
def SharesFile (x y : System) : Prop := x.path ≠ none ∧ x.path = y.path

instance (x y : System) : Decidable (x.SharesFile y) := inferInstanceAs (Decidable (_ ∧ _))

/-- A thread and its daemon, when another one has come into the state `x`. -/
def seeing (y x : System) : System :=
  if x.SharesFile y then { y with ring := y.ring.map fun c => x.ring.elim c c.mapped } else y

lemma seeing_worker (y x : System) : (y.seeing x).worker = y.worker := by
  unfold seeing
  split_ifs <;> rfl

/-- A thread sees nothing of a file with another name. -/
lemma seeing_eq {x y : System} (h : ¬ x.SharesFile y) : y.seeing x = y := if_neg h

end System

/-! ## Hosts -/

/-- Processes and their threads, which run at the same time. -/
structure Host (π ι : Type*) where
  zts : Bool
  process : ι → π
  pid : π → UInt32
  clock : ι → Clock
  /-- The worker of a thread behind GINIT and MINIT, where it starts: a forked process has no ring of
  its parent. -/
  start : ι → Worker
  pid_injective : Function.Injective pid
  /-- Without thread safety a process is one thread. -/
  process_injective : zts = false → Function.Injective process

/-- The state of a host. -/
structure HostState (π ι : Type*) where
  /-- `lumbre_worker_counter` of a process. -/
  workerCounter : π → UInt64
  /-- How many ids the threads of a process have taken. -/
  issued : π → ℕ
  system : ι → System

namespace HostState

variable {π ι : Type*} (s : HostState π ι)

/-- The label of the ring of a thread. -/
def label (i : ι) : Option RingLabel := (s.system i).worker.proc.label

/-- The host with one thread, and its ring, in another state, as far as the others see it. -/
def set [DecidableEq ι] (i : ι) (x : System) : HostState π ι :=
  { s with system := fun j => if j = i then x else (s.system j).seeing x }

/-- The host when a thread of the process has taken an id. -/
def issue [DecidableEq π] (zts : Bool) (p : π) : HostState π ι :=
  { s with
    workerCounter := Function.update s.workerCounter p (lumbreWorkerId zts (s.workerCounter p)).2
    issued := Function.update s.issued p (s.issued p + 1) }

section

variable [DecidableEq ι] (i : ι) (x : System)

lemma system_set : (s.set i x).system i = x := if_pos rfl

lemma system_set_of_ne {i j : ι} (hne : j ≠ i) :
    (s.set i x).system j = (s.system j).seeing x := if_neg hne

lemma label_set : (s.set i x).label i = x.worker.proc.label := by rw [label, system_set]

/-- Another thread keeps its label. -/
lemma label_set_of_ne {i j : ι} (hne : j ≠ i) : (s.set i x).label j = s.label j := by
  rw [label, label, system_set_of_ne s x hne, System.seeing_worker]

/-- A step that keeps the label of its thread keeps all of them. -/
lemma label_set_eq {i : ι} {x : System} (hlabel : x.worker.proc.label = s.label i) (j : ι) :
    (s.set i x).label j = s.label j := by
  by_cases hj : j = i
  · rw [hj, label_set, hlabel]
  · exact s.label_set_of_ne x hj

end

section

variable [DecidableEq π] (zts : Bool) (p : π)

lemma issued_issue : (s.issue zts p).issued p = s.issued p + 1 := Function.update_self p _ s.issued

lemma issued_issue_of_ne {p q : π} (hne : q ≠ p) : (s.issue zts p).issued q = s.issued q :=
  Function.update_of_ne hne _ s.issued

/-- The number of ids only grows. -/
lemma issued_le_issue (q : π) : s.issued q ≤ (s.issue zts p).issued q := by
  by_cases hq : q = p
  · rw [hq, issued_issue]
    exact Nat.le_succ _
  · rw [issued_issue_of_ne s zts hq]

lemma workerCounter_issue :
    (s.issue zts p).workerCounter p = (lumbreWorkerId zts (s.workerCounter p)).2 :=
  Function.update_self p _ s.workerCounter

lemma workerCounter_issue_of_ne {p q : π} (hne : q ≠ p) :
    (s.issue zts p).workerCounter q = s.workerCounter q :=
  Function.update_of_ne hne _ s.workerCounter

end

end HostState

namespace Host

variable {π ι : Type*} [DecidableEq π] [DecidableEq ι]

/-- No thread has served a request. -/
def initial (H : Host π ι) : HostState π ι where
  workerCounter := fun _ => 0
  issued := fun _ => 0
  system := fun i => .initial (H.start i)

/-- One step of one thread, or of the daemon on its ring; there is no step that forks. -/
inductive Step (H : Host π ι) (Observes : Spsc → ℕ → Prop) : HostState π ι → HostState π ι → Prop
  /-- A step in which no id is taken. -/
  | other {s : HostState π ι} (i : ι) {x : System}
      (hstep : System.Step (H.clock i)
        (fun e => ∀ env, e = .rinit env → ¬ (s.system i).worker.TakesId) Observes (s.system i) x) :
      Step H Observes s (s.set i x)
  /-- The RINIT that takes an id, to open a ring. -/
  | init {s : HostState π ι} (i : ι) {env : RequestEnv} {w : Worker}
      (htakes : (s.system i).worker.TakesId)
      (hworkerId : env.workerId =
        (lumbreWorkerId H.zts (s.workerCounter (H.process i))).1)
      (hpid : env.pid = H.pid (H.process i))
      (hidle : ∀ c, (s.system i).ring = some c → c.ops = [])
      (hstep : (s.system i).worker.step (H.clock i) (.rinit env) = some w) :
      Step H Observes s ((s.issue H.zts (H.process i)).set i
        { s.system i with
          worker := w
          ring := (s.system i).ring.or (w.proc.g.ringbuf.map Spsc.initial) })

/-- The states of the runs of a host. -/
def Reachable (H : Host π ι) (Observes : Spsc → ℕ → Prop) : HostState π ι → Prop :=
  Relation.ReflTransGen (Step H Observes) H.initial

end Host

/-! ## One thread -/

/-- Without an id being taken, the label stays. -/
lemma System.Step.label_eq {clock : Clock} {Observes : Spsc → ℕ → Prop} {x x' : System}
    (h : System.Step clock (fun e => ∀ env, e = .rinit env → ¬ x.worker.TakesId) Observes x x') :
    x'.worker.proc.label = x.worker.proc.label := by
  rcases h.worker_cases with ⟨e, hallowed, hworker, _⟩ | ⟨hsame, _⟩
  · cases Worker.fileEffect_of_step hworker with
    | keeps _ hsame => exact hsame.label
    | @inits env _ htakes _ _ _ _ => exact absurd htakes (hallowed env rfl)
  · rw [hsame]

namespace Host

variable {π ι : Type*} {H : Host π ι} {s s' : HostState π ι}

/-- **No two open rings have the same process and id.** -/
structure Owned (H : Host π ι) (s : HostState π ι) : Prop where
  counter : H.zts = true → ∀ p, s.workerCounter p = UInt64.ofNat (s.issued p)
  label : ∀ i l, s.label i = some l → l.pid = H.pid (H.process i) ∧
    (H.zts = true → l.workerId.toNat < s.issued (H.process i))
  path : ∀ i l, s.label i = some l → ∃ dir, l.path = ringPath dir l.pid l.workerId
  distinct : ∀ i j, i ≠ j → ∀ l l', s.label i = some l → s.label j = some l' →
    l.pid = l'.pid → l.workerId ≠ l'.workerId

/-- The next id of a thread is not that of another ring of its process. -/
lemma Owned.fresh (h : Owned H s) {i j : ι} (hne : i ≠ j)
    (hids : s.issued (H.process i) < 2 ^ 64) {l : RingLabel} (hl : s.label j = some l)
    (hpid : H.pid (H.process i) = l.pid) :
    (lumbreWorkerId H.zts (s.workerCounter (H.process i))).1 ≠ l.workerId := by
  obtain ⟨hother, hlt⟩ := h.label j l hl
  have hprocess : H.process i = H.process j := H.pid_injective (hpid.trans hother)
  cases hzts : H.zts with
  | false => exact absurd (H.process_injective hzts hprocess) hne
  | true =>
      intro heq
      have hid : (s.workerCounter (H.process i)).toNat = l.workerId.toNat :=
        congrArg UInt64.toNat heq
      have hissued := hlt hzts
      rw [← hprocess, ← hid, h.counter hzts, UInt64.toNat_ofNat_of_lt' hids] at hissued
      exact absurd hissued (lt_irrefl _)

/-- No two threads have a file of one name. -/
lemma Owned.not_sharesFile (h : Owned H s) {i j : ι} (hne : i ≠ j) :
    ¬ (s.system i).SharesFile (s.system j) := by
  rintro ⟨hopen, hsame⟩
  obtain ⟨path, hpath⟩ := Option.ne_none_iff_exists'.mp hopen
  obtain ⟨l, hl, rfl⟩ := Option.map_eq_some_iff.mp hpath
  obtain ⟨l', hl', heq⟩ := Option.map_eq_some_iff.mp (hsame.symm.trans hpath)
  obtain ⟨dir, hdir⟩ := h.path i l hl
  obtain ⟨dir', hdir'⟩ := h.path j l' hl'
  obtain ⟨_, hpid, hid⟩ := ringPath_injective (hdir'.symm.trans (heq.trans hdir))
  exact h.distinct i j hne l l' hl hl' hpid.symm hid.symm

variable [DecidableEq π] [DecidableEq ι]

omit [DecidableEq ι] in
/-- In a thread-safe build the counter is the number of ids taken. -/
lemma Owned.counter_issue (h : Owned H s) (hzts : H.zts = true) (p q : π) :
    (s.issue H.zts p).workerCounter q = UInt64.ofNat ((s.issue H.zts p).issued q) := by
  by_cases hq : q = p
  · rw [hq, s.workerCounter_issue, s.issued_issue, hzts]
    change s.workerCounter p + 1 = _
    rw [h.counter hzts]
    exact counter_add _ 1
  · rw [s.workerCounter_issue_of_ne H.zts hq, s.issued_issue_of_ne H.zts hq]
    exact h.counter hzts q

omit [DecidableEq ι] in
/-- An id is taken. -/
lemma Owned.issue (h : Owned H s) (p : π) : Owned H (s.issue H.zts p) where
  counter := fun hzts => h.counter_issue hzts p
  label := fun i l hl => ⟨(h.label i l hl).1, fun hzts =>
    ((h.label i l hl).2 hzts).trans_le (s.issued_le_issue H.zts p _)⟩
  path := h.path
  distinct := h.distinct

omit [DecidableEq π] in
/-- A step of a thread that keeps its label. -/
lemma Owned.set_same (h : Owned H s) {i : ι} {x : System}
    (hlabel : x.worker.proc.label = s.label i) : Owned H (s.set i x) := by
  have hsame := s.label_set_eq hlabel
  refine ⟨h.counter, fun j l hl => h.label j l (hsame j ▸ hl),
    fun j l hl => h.path j l (hsame j ▸ hl), ?_⟩
  intro j j' hne l l' hl hl'
  exact h.distinct j j' hne l l' (hsame j ▸ hl) (hsame j' ▸ hl')

/-- A ring is opened. -/
lemma Owned.open (h : Owned H s) {i : ι} {x : System} {l : RingLabel}
    (hlabel : x.worker.proc.label = some l) (hpid : l.pid = H.pid (H.process i))
    (hpath : ∃ dir, l.path = ringPath dir l.pid l.workerId)
    (hworkerId : l.workerId = (lumbreWorkerId H.zts (s.workerCounter (H.process i))).1)
    (hids : s.issued (H.process i) < 2 ^ 64) :
    Owned H ((s.issue H.zts (H.process i)).set i x) := by
  have hissue := h.issue (H.process i)
  have hown : ((s.issue H.zts (H.process i)).set i x).label i = some l := by
    rw [HostState.label_set, hlabel]
  have hother : ∀ {j}, j ≠ i → ((s.issue H.zts (H.process i)).set i x).label j = s.label j :=
    fun hne => HostState.label_set_of_ne _ x hne
  -- against the rings that are already open
  have hfresh : ∀ j ≠ i, ∀ l', s.label j = some l' → l.pid = l'.pid → l.workerId ≠ l'.workerId := by
    intro j hne l' hl' heq
    rw [hworkerId]
    exact h.fresh hne.symm hids hl' (hpid.symm.trans heq)
  refine ⟨hissue.counter, ?_, ?_, ?_⟩
  · intro j l' hl'
    by_cases hj : j = i
    · subst hj
      obtain rfl := Option.some_inj.mp (hown.symm.trans hl')
      refine ⟨hpid, fun hzts => ?_⟩
      have hid : l.workerId.toNat = s.issued (H.process j) := by
        rw [hworkerId, hzts]
        change (s.workerCounter (H.process j)).toNat = _
        rw [h.counter hzts, UInt64.toNat_ofNat_of_lt' hids]
      change l.workerId.toNat < (s.issue H.zts (H.process j)).issued (H.process j)
      rw [hid, HostState.issued_issue]
      exact Nat.lt_succ_self _
    · exact hissue.label j l' (hother hj ▸ hl')
  · intro j l' hl'
    by_cases hj : j = i
    · subst hj
      obtain rfl := Option.some_inj.mp (hown.symm.trans hl')
      exact hpath
    · exact hissue.path j l' (hother hj ▸ hl')
  · intro j j' hne l₁ l₂ hl₁ hl₂ heq
    by_cases hj : j = i
    · subst hj
      obtain rfl := Option.some_inj.mp (hown.symm.trans hl₁)
      exact hfresh j' hne.symm l₂ (hother hne.symm ▸ hl₂) heq
    · by_cases hj' : j' = i
      · subst hj'
        obtain rfl := Option.some_inj.mp (hown.symm.trans hl₂)
        exact (hfresh j hne l₁ (hother hne ▸ hl₁) heq.symm).symm
      · exact h.distinct j j' hne l₁ l₂ (hother hj ▸ hl₁) (hother hj' ▸ hl₂) heq

/-- **Every step preserves it**, while no counter has wrapped around. -/
theorem Owned.step {Observes : Spsc → ℕ → Prop} (h : Owned H s) (hstep : Step H Observes s s')
    (hids : ∀ p, s'.issued p ≤ 2 ^ 64) : Owned H s' := by
  cases hstep with
  | other i hstep => exact h.set_same hstep.label_eq
  | @init i env w htakes hworkerId hpid hidle hstep =>
      cases Worker.fileEffect_of_step hstep with
      | keeps hkeeps _ => exact absurd htakes (hkeeps env rfl)
      | inits _ heffect _ _ _ =>
          cases heffect with
          | fails hlabel _ => exact (h.issue (H.process i)).set_same hlabel
          | opens hlabel _ =>
              have hroom : s.issued (H.process i) + 1 ≤ 2 ^ 64 := by
                rw [← s.issued_issue H.zts]
                exact hids (H.process i)
              exact h.open hlabel hpid ⟨_, rfl⟩ hworkerId hroom

/-! ## Runs -/

omit [DecidableEq π] in
/-- While the names are different, nobody sees a step of another thread. -/
lemma Owned.system_set_of_ne {i j : ι} {x : System} (h : Owned H (s.set i x)) (hne : j ≠ i) :
    (s.set i x).system j = s.system j := by
  have hother := h.not_sharesFile hne.symm
  have hsee := s.system_set_of_ne x hne
  have hpath : ((s.system j).seeing x).path = (s.system j).path := by
    rw [System.path, System.path, System.seeing_worker]
  rw [s.system_set, hsee, System.SharesFile, hpath] at hother
  rw [hsee, System.seeing_eq hother]

end Host

end LumbreExt
