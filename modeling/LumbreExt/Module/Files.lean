import LumbreExt.Lib.Ascii
import LumbreExt.Module.System
import LumbreExt.Ringbuf.Image

/-!
# The file of a worker

What a worker has in the shared-memory directory, over its whole life and whatever fails in it.

* `ringPath_injective` — the name of a file gives away its directory, process and worker.
* `SameFile`, `InitEffect` — the ring and the file of a process stay as they are, or the lazy
  initialisation opens the file with the id it has taken, or fails.
* `Worker.FileEffect`, `Worker.fileEffect_of_step` — which of these an event does.
* `Worker.Filed`, `Worker.Filed.step` — the file of the worker is that of its ring, and its name is
  what its header says.
* `Worker.files_released` — in every state of every run, and what MSHUTDOWN leaves of it.
-/

namespace LumbreExt

open Lib

/-! ## Names -/

lemma ascii_toString (n : ℕ) : ascii (toString n) = decimal n := by
  rw [ascii, Nat.toString_eq_repr, Nat.toList_repr]
  rfl

/-- **The name of a file gives away whose it is.** -/
lemma ringPath_injective {dir dir' : List UInt8} {pid pid' : UInt32} {workerId workerId' : UInt64}
    (h : ringPath dir pid workerId = ringPath dir' pid' workerId') :
    dir = dir' ∧ pid = pid' ∧ workerId = workerId' := by
  have hunderscore : ∀ n, (0x5F : UInt8) ∉ decimal n := fun n hmem =>
    absurd (isDigit_of_mem_decimal hmem) (by decide)
  have hpath : ∀ (dir : List UInt8) (pid : UInt32) (workerId : UInt64),
      ringPath dir pid workerId =
        (dir ++ ascii "/lumbre" ++ 0x5F :: decimal pid.toNat) ++ 0x5F :: decimal workerId.toNat := by
    intro dir pid workerId
    rw [ringPath, ascii_toString, ascii_toString]
    have hlead : ascii "/lumbre_" = ascii "/lumbre" ++ [0x5F] := by decide
    have hsep : ascii "_" = [0x5F] := by decide
    rw [hlead, hsep]
    simp only [List.append_assoc, List.cons_append, List.nil_append]
  rw [hpath, hpath] at h
  obtain ⟨hfront, hworker⟩ := append_cons_inj_right (hunderscore _) (hunderscore _) h
  obtain ⟨hdir, hpid⟩ := append_cons_inj_right (hunderscore _) (hunderscore _) hfront
  exact ⟨List.append_cancel_right hdir, UInt32.toNat_inj.mp (decimal_injective hpid),
    UInt64.toNat_inj.mp (decimal_injective hworker)⟩

/-! ## One event -/

/-- What a finish does not change. -/
lemma FinishCall.label_result (c : FinishCall) (rb : LumbreRingbuf) :
    (c.result rb).rb.label = rb.label := by
  rcases c.result_cases rb with ⟨_, _, hrb, _⟩ | ⟨wc, _, _, _, hrb, _⟩
  · rw [hrb]
    rfl
  · rw [hrb]
    exact (rb.withReadPos wc.readPos).label_execAll _

/-- The label of the ring, once it is open. -/
def Process.label (p : Process) : Option RingLabel := p.g.ringbuf.map LumbreRingbuf.label

/-- The process `p'` has the file of `p`. -/
structure SameFile (p p' : Process) : Prop where
  label : p'.label = p.label
  files : p'.os.files = p.os.files
  workerId : p'.g.workerId = p.g.workerId
  shmDir : p'.g.shmDir = p.g.shmDir
  ringCapacity : p'.g.ringCapacity = p.g.ringCapacity

/-- What an initialisation does to the file of a process. -/
inductive InitEffect (p : Process) (env : RequestEnv) (p' : Process) : Prop
  /-- The id is taken, but the ring cannot be opened. -/
  | fails (hlabel : p'.label = p.label)
      (hfiles : p'.os.files = p.os.files ∨
        p'.os.files = p.os.files.erase (ringPath p.g.shmDir env.pid env.workerId))
  | opens (hlabel : p'.label =
        some (ringLabel p.g.shmDir env.pid env.workerId p.g.ringCapacity))
      (hfiles : p'.os.files = ringPath p.g.shmDir env.pid env.workerId ::
        p.os.files.erase (ringPath p.g.shmDir env.pid env.workerId))

lemma InitEffect.congr {p p' q : Process} {env : RequestEnv} (h : InitEffect q env p')
    (hlabel : q.label = p.label) (hfiles : q.os.files = p.os.files)
    (hdir : q.g.shmDir = p.g.shmDir) (hcapacity : q.g.ringCapacity = p.g.ringCapacity) :
    InitEffect p env p' := by
  cases h with
  | fails hlabel' hfiles' =>
      refine .fails (hlabel'.trans hlabel) ?_
      rw [← hdir, ← hfiles]
      exact hfiles'
  | opens hlabel' hfiles' =>
      refine .opens ?_ ?_
      · rw [← hdir, ← hcapacity]
        exact hlabel'
      · rw [← hdir, ← hfiles]
        exact hfiles'

lemma InitEffect.of_sameFile {p p' q : Process} {env : RequestEnv} (h : InitEffect p env q)
    (hsame : SameFile q p') : InitEffect p env p' := by
  cases h with
  | fails hlabel hfiles =>
      exact .fails (hsame.label.trans hlabel) (hfiles.imp hsame.files.trans hsame.files.trans)
  | opens hlabel hfiles => exact .opens (hsame.label.trans hlabel) (hsame.files.trans hfiles)

namespace Process

variable {p p' q : Process} {clock : Clock}

lemma sameFile_refl (p : Process) : SameFile p p := ⟨rfl, rfl, rfl, rfl, rfl⟩

lemma sameFile_afterFinish {rb : LumbreRingbuf} (c : FinishCall) (hrb : p.g.ringbuf = some rb) :
    SameFile p (p.afterFinish (c.result rb)) where
  label := by
    rw [label, label, hrb]
    exact congrArg some (c.label_result rb)
  files := rfl
  workerId := rfl
  shmDir := rfl
  ringCapacity := rfl

lemma sameFile_spanFinish {span : LumbreSpan} {minDurationNs readPos : UInt64} {r : FinishResult}
    (h : p.spanFinish clock span minDurationNs readPos = some (r, p')) : SameFile p p' := by
  obtain ⟨rb, hrb, rfl, rfl⟩ := spanFinish_call h
  exact sameFile_afterFinish _ hrb

lemma sameFile_enter (clock : Clock) (p : Process) (call : HookCall) :
    SameFile p (p.enter clock call).2 := by
  rcases p.enter_cases clock call with ⟨_, henter⟩ | ⟨_, _, _, _, henter⟩
  · rw [henter]
    exact sameFile_refl p
  · rw [henter]
    exact ⟨rfl, rfl, rfl, rfl, rfl⟩

lemma sameFile_leave {frame : HookFrame} {readPos : UInt64}
    (h : p.leave clock frame readPos = some p') : SameFile p p' := by
  cases frame with
  | passThrough =>
      cases h
      exact sameFile_refl p
  | traced span =>
      obtain ⟨⟨r, q⟩, hfinish, rfl⟩ := Option.map_eq_some_iff.mp h
      exact sameFile_spanFinish hfinish

lemma sameFile_phpRshutdown {readPos : UInt64} (h : p.phpRshutdown clock readPos = some p') :
    SameFile p p' := by
  by_cases hactive : p.g.ctx.active = 0
  · rw [phpRshutdown_inactive clock hactive] at h
    cases h
    exact sameFile_refl p
  · rw [phpRshutdown, if_neg hactive] at h
    obtain ⟨⟨r, q⟩, hfinish, rfl⟩ := Option.map_eq_some_iff.mp h
    have hsame := sameFile_spanFinish hfinish
    exact ⟨hsame.label, hsame.files, hsame.workerId, hsame.shmDir, hsame.ringCapacity⟩

lemma sameFile_iniSet (p : Process) (change : IniChange) : SameFile p (p.iniSet change) := by
  cases change <;> exact ⟨rfl, rfl, rfl, rfl, rfl⟩

lemma sameFile_allocStorage {env : RequestEnv} (h : p.allocStorage env = some q) :
    SameFile p q := by
  unfold allocStorage at h
  split at h <;> cases h <;> exact ⟨rfl, rfl, rfl, rfl, rfl⟩

lemma openRingbuf_file (p : Process) (env : RequestEnv) (hworkerId : p.g.workerId = env.workerId) :
    InitEffect p env (p.openRingbuf env) ∧ (p.openRingbuf env).g.workerId = env.workerId ∧
      (p.openRingbuf env).g.shmDir = p.g.shmDir ∧
      (p.openRingbuf env).g.ringCapacity = p.g.ringCapacity := by
  rcases lumbreRingbufInit_spec env.initAnswers p.os p.g.shmDir env.pid env.workerId
      p.g.ringCapacity with ⟨os', hinit, hfiles⟩ | ⟨os', rb, hinit, hfiles, hlabel⟩
  · have hopen : p.openRingbuf env = { p with os := os', g.enabled := 0 } := by
      unfold openRingbuf
      rw [show p.g.bufferSize.toUInt64.toUInt32 = p.g.ringCapacity from rfl, hinit]
      rfl
    rw [hopen]
    exact ⟨.fails rfl hfiles, hworkerId, rfl, rfl⟩
  · have hopen : p.openRingbuf env =
        { p with os := os', g.ringbuf := some rb, g.ringbufInitialized := 1 } := by
      unfold openRingbuf
      rw [show p.g.bufferSize.toUInt64.toUInt32 = p.g.ringCapacity from rfl, hinit]
      rfl
    have hpath : rb.path = ringPath p.g.shmDir env.pid env.workerId :=
      congrArg RingLabel.path hlabel
    rw [hopen]
    refine ⟨.opens (congrArg some hlabel) ?_, hworkerId, rfl, rfl⟩
    rw [← hpath]
    exact hfiles

/-- **The lazy initialisation opens the file of the id it has taken, or none.** -/
lemma lazyInit_file (p : Process) (env : RequestEnv) :
    InitEffect p env (p.lazyInit env) ∧ (p.lazyInit env).g.workerId = env.workerId ∧
      (p.lazyInit env).g.shmDir = p.g.shmDir ∧
      (p.lazyInit env).g.ringCapacity = p.g.ringCapacity := by
  unfold lazyInit
  dsimp only
  split
  · exact ⟨.fails rfl (Or.inl rfl), rfl, rfl, rfl⟩
  · rename_i q hq
    have hsame := sameFile_allocStorage hq
    obtain ⟨heffect, hworkerId, hdir, hcapacity⟩ := openRingbuf_file { q with
      g.mpBufPtr := q.g.mpStorage
      g.mpBuf.capacity := lumbreMsgpackBufSize
      g.mpBuf.pos := 0 } env hsame.workerId
    exact ⟨heffect.congr hsame.label hsame.files hsame.shmDir hsame.ringCapacity, hworkerId,
      hdir.trans hsame.shmDir, hcapacity.trans hsame.ringCapacity⟩

end Process

namespace Worker

/-- A RINIT would take an id, and open a ring. -/
def TakesId (w : Worker) : Prop := w.proc.g.enabled ≠ 0 ∧ w.proc.g.ringbufInitialized = 0

instance (w : Worker) : Decidable w.TakesId := inferInstanceAs (Decidable (_ ∧ _))

/-- What an event does to the file of a worker. -/
inductive FileEffect (w : Worker) : Event → Worker → Prop
  | keeps {e : Event} {w' : Worker} (hidle : ∀ env, e = .rinit env → ¬ w.TakesId)
      (hsame : SameFile w.proc w'.proc) : FileEffect w e w'
  | inits {env : RequestEnv} {w' : Worker} (htakes : w.TakesId)
      (heffect : InitEffect w.proc env w'.proc) (hworkerId : w'.proc.g.workerId = env.workerId)
      (hdir : w'.proc.g.shmDir = w.proc.g.shmDir)
      (hcapacity : w'.proc.g.ringCapacity = w.proc.g.ringCapacity) : FileEffect w (.rinit env) w'

variable {clock : Clock} {w w' : Worker} {e : Event}

/-- RINIT. -/
lemma fileEffect_rinit (clock : Clock) (w : Worker) (env : RequestEnv) :
    FileEffect w (.rinit env) (w.beginRequest env (w.proc.cleared.phpRinit clock env)) := by
  have hstart : ∀ q : Process, SameFile q ((q.initContext env).startRoot clock env) :=
    fun q => ⟨rfl, rfl, rfl, rfl, rfl⟩
  have hsame : ¬ w.TakesId → SameFile w.proc (w.proc.cleared.phpRinit clock env) := by
    intro hidle
    unfold Process.phpRinit
    by_cases henabled : w.proc.cleared.g.enabled = 0
    · rw [if_pos henabled]
      exact ⟨rfl, rfl, rfl, rfl, rfl⟩
    · have hopen : w.proc.cleared.g.ringbufInitialized ≠ 0 := fun hzero => hidle ⟨henabled, hzero⟩
      rw [if_neg henabled, if_neg hopen]
      dsimp only
      rw [if_neg hopen]
      have hroot := hstart w.proc.cleared
      exact ⟨hroot.label, hroot.files, hroot.workerId, hroot.shmDir, hroot.ringCapacity⟩
  by_cases htakes : w.TakesId
  · obtain ⟨heffect, hworkerId, hdir, hcapacity⟩ := w.proc.cleared.lazyInit_file env
    have hrinit : SameFile (w.proc.cleared.lazyInit env) (w.proc.cleared.phpRinit clock env) := by
      unfold Process.phpRinit
      rw [if_neg (show ¬ w.proc.cleared.g.enabled = 0 from htakes.1),
        if_pos (show w.proc.cleared.g.ringbufInitialized = 0 from htakes.2)]
      dsimp only
      split_ifs
      · exact Process.sameFile_refl _
      · exact hstart _
    refine .inits htakes ?_ (hrinit.workerId.trans hworkerId) (hrinit.shmDir.trans hdir)
      (hrinit.ringCapacity.trans hcapacity)
    exact (heffect.of_sameFile hrinit).congr rfl rfl rfl rfl
  · exact .keeps (fun env' _ => htakes) (hsame htakes)

/-- **An event keeps the file of the worker, or is the initialisation that opens it.** -/
theorem fileEffect_of_step (hstep : w.step clock e = some w') : FileEffect w e w' := by
  have hother : ∀ {e : Event} {w' : Worker}, (∀ env, e ≠ .rinit env) → SameFile w.proc w'.proc →
      FileEffect w e w' := fun hne hsame => .keeps (fun env he => absurd he (hne env)) hsame
  have hsettle : ∀ {w₀ : Worker} {p : Option Process}, w₀.proc = w.proc →
      (∀ q, p = some q → SameFile w.proc q) → SameFile w.proc (w₀.settle p).proc := by
    intro w₀ p hproc hp
    cases p with
    | none => exact hproc ▸ Process.sameFile_refl _
    | some q => exact hp q rfl
  cases transition_of_step hstep with
  | rinit env hidle => exact fileEffect_rinit clock w env
  | enter call _ => exact hother (fun _ => Event.noConfusion) (w.proc.sameFile_enter clock call)
  | leave readPos hstack =>
      exact hother (fun _ => Event.noConfusion)
        (hsettle rfl fun q hq => Process.sameFile_leave hq)
  | bailout _ => exact hother (fun _ => Event.noConfusion) (Process.sameFile_refl _)
  | iniSet change => exact hother (fun _ => Event.noConfusion) (w.proc.sameFile_iniSet change)
  | rshutdown readPos _ =>
      exact hother (fun _ => Event.noConfusion)
        (hsettle rfl fun q hq => Process.sameFile_phpRshutdown hq)

/-! ## Runs -/

/-- **The file invariant.** -/
structure Filed (w : Worker) : Prop where
  files : w.proc.os.files = (w.proc.label.map RingLabel.path).toList
  label : ∀ l, w.proc.label = some l →
    ∃ pid, l = ringLabel w.proc.g.shmDir pid w.proc.g.workerId w.proc.g.ringCapacity

lemma filed_start {table : List LumbreWlStaticEntry} (h : Start table w) : w.Filed := by
  obtain ⟨settings, g, hg, rfl⟩ := h
  obtain ⟨whitelist, _, rfl⟩ := Option.map_eq_some_iff.mp hg
  exact ⟨rfl, fun l hl => absurd hl.symm (Option.some_ne_none l)⟩

/-- A worker that takes an id has no ring yet. -/
lemma TakesId.label (h : w.TakesId) (hsafe : w.Safe) : w.proc.label = none := by
  rcases hsafe.resources.ring with hclosed | hopened
  · rw [Process.label, hclosed.ring]
    rfl
  · have hone := hopened.flag
    rw [h.2] at hone
    exact absurd hone (by decide)

/-- **Every event preserves it.** -/
theorem Filed.step (h : w.Filed) (hsafe : w.Safe) (hstep : w.step clock e = some w') :
    w'.Filed := by
  cases fileEffect_of_step hstep with
  | keeps _ hsame =>
      refine ⟨?_, ?_⟩
      · rw [hsame.files, hsame.label]
        exact h.files
      · rw [hsame.label, hsame.shmDir, hsame.workerId, hsame.ringCapacity]
        exact h.label
  | @inits env _ htakes heffect hworkerId hdir hcapacity =>
      have hnone := htakes.label hsafe
      have hempty : w.proc.os.files = [] := by
        rw [h.files, hnone]
        rfl
      cases heffect with
      | fails hlabel hfiles =>
          rw [hempty, List.erase_nil, or_self] at hfiles
          rw [hnone] at hlabel
          refine ⟨?_, fun l hl => ?_⟩
          · rw [hfiles, hlabel]
            rfl
          · rw [hlabel] at hl
            exact absurd hl.symm (Option.some_ne_none l)
      | opens hlabel hfiles =>
          rw [hempty, List.erase_nil] at hfiles
          refine ⟨?_, fun l hl => ⟨env.pid, ?_⟩⟩
          · rw [hfiles, hlabel]
            rfl
          · rw [hlabel] at hl
            rw [hdir, hworkerId, hcapacity]
            exact (Option.some_inj.mp hl).symm

/-- Every state of every run satisfies it. -/
lemma filed_of_reachable {table : List LumbreWlStaticEntry}
    (h : (machine clock table).Reachable w) : w.Filed := by
  have hboth : w.Safe ∧ w.Filed :=
    h.invariant (I := fun w => w.Safe ∧ w.Filed) (fun _ hw => ⟨safe_start hw, filed_start hw⟩)
      fun _ _ _ hs hstep => ⟨hs.1.step clock hstep, hs.2.step hs.1 hstep⟩
  exact hboth.2

/-- **A worker has the file of its ring and no other, and gives it back.** In every state of every
run, whatever has failed in it: the process has created no file, or that of its open ring, whose name
is made of the directory, process and worker that the header of the ring gives. MSHUTDOWN on the
globals of this worker, which are those of the main thread in a thread-safe build, unmaps the ring,
closes its descriptor and frees the storage; the file is unlinked, but for the `cli` SAPI, where it
stays. -/
theorem files_released {table : List LumbreWlStaticEntry} (h : (machine clock table).Reachable w)
    (sapiName : Option (List UInt8)) :
    ((w.proc.g.ringbuf = none ∧ w.proc.os.files = []) ∨
      ∃ rb, w.proc.g.ringbuf = some rb ∧ w.proc.os.files = [rb.path] ∧
        rb.label = ringLabel w.proc.g.shmDir rb.header.pid w.proc.g.workerId
          w.proc.g.ringCapacity) ∧
      (w.proc.phpMshutdown sapiName).os.files =
        (if sapiName = some (ascii "cli") then w.proc.os.files else []) ∧
      (w.proc.phpMshutdown sapiName).os.mappings = 0 ∧
      (w.proc.phpMshutdown sapiName).os.openFds = 0 ∧
      (w.proc.phpMshutdown sapiName).g.ringbuf = none ∧
      (w.proc.phpMshutdown sapiName).g.mpStorage = none := by
  have hfiled := filed_of_reachable h
  obtain ⟨hmappings, hopenFds, hstorage, hring⟩ := phpMshutdown_released h sapiName
  rcases (safe_of_reachable h).resources.ring with hclosed | hopened
  · have hempty : w.proc.os.files = [] := by
      rw [hfiled.files, Process.label, hclosed.ring]
      rfl
    refine ⟨Or.inl ⟨hclosed.ring, hempty⟩, ?_, hmappings, hopenFds, hring, hstorage⟩
    unfold Process.phpMshutdown
    rw [hclosed.flag, hempty, ite_self]
    exact hempty
  · obtain ⟨rb, hrb⟩ := Option.isSome_iff_exists.mp hopened.ring
    have hlabel : w.proc.label = some rb.label := by
      rw [Process.label, hrb]
      rfl
    have hfile : w.proc.os.files = [rb.path] := by
      rw [hfiled.files, hlabel]
      rfl
    obtain ⟨pid, hrbLabel⟩ := hfiled.label _ hlabel
    have hpid : rb.header.pid = pid := congrArg RingLabel.pid hrbLabel
    refine ⟨Or.inr ⟨rb, hrb, hfile, hpid ▸ hrbLabel⟩, ?_, hmappings, hopenFds, hring, hstorage⟩
    unfold Process.phpMshutdown
    rw [hopened.flag, hrb, if_pos (show (1 : ℤ) ≠ 0 by decide)]
    by_cases hcli : sapiName = some (ascii "cli")
    · rw [if_pos hcli, hcli]
      rfl
    · have hunlinked : w.proc.os.files.erase rb.path = [] := by
        rw [hfile]
        exact List.erase_cons_head _ _
      rw [if_neg hcli, decide_eq_false hcli]
      exact hunlinked

/-- With the ring open, under the `cli` SAPI. -/
theorem files_released_cli :
    ∃ w, (machine (fun _ => 0) lumbreWlStaticTable).run shipped [.rinit plainRequest] = some w ∧
      w.proc.os.files = [ascii "/dev/shm/lumbre_1_0"] ∧
      (w.proc.phpMshutdown (some (ascii "cli"))).os.files = w.proc.os.files ∧
      (w.proc.phpMshutdown (some (ascii "fpm-fcgi"))).os.files = [] := by
  have hrun : ((machine (fun _ => 0) lumbreWlStaticTable).run shipped
      [.rinit plainRequest]).map (fun w => w.proc.os.files) =
        some [ascii "/dev/shm/lumbre_1_0"] := by decide +kernel
  obtain ⟨w, hrun, hfiles⟩ := Option.map_eq_some_iff.mp hrun
  have hreach := (Machine.Reachable.start start_shipped).run hrun
  obtain ⟨_, hcli, _⟩ := files_released hreach (some (ascii "cli"))
  obtain ⟨_, hother, _⟩ := files_released hreach (some (ascii "fpm-fcgi"))
  rw [if_pos rfl] at hcli
  rw [if_neg (by decide)] at hother
  exact ⟨w, hrun, hfiles, hcli, hother⟩

end Worker

end LumbreExt
