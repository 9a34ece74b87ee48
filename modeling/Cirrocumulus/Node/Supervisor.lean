/-
# The supervisor of one VM

`run_until_ended` owns a VM from its start to its end. It waits for the VMM to end by
itself or for a request to stop, and a request may take it through a park, which can
fail at half a dozen places, or into a second loop that waits for a guest to stop by
itself. Here every call to Firecracker, every rename and every look at the VMM is a step
of its own, so the VMM can end between any two of them.

What a park did is kept with the park: the files before it, and each answer it was given
with the VMM, the files and the supervisor right after it.
-/

import Cirrocumulus.Node.WakeRollback

namespace Cirrocumulus.Node

open Option
open Lib (Files Rename)

namespace Supervisor

/-! ## The VMM and what its end shows -/

/-- What the kernel counts for a cgroup in its `memory.events`. -/
structure MemoryEvents where
  low : Nat
  high : Nat
  max : Nat
  oom : Nat
  oomKill : Nat
  oomGroupKill : Nat
  deriving DecidableEq

/-- The lines of `memory.events`, with what follows the last newline. -/
def MemoryEvents.lines (events : MemoryEvents) : List Str :=
  let line (key : String) (count : Nat) : Str := key.toList ++ (Nat.repr count).toList
  [line "low " events.low, line "high " events.high, line "max " events.max,
    line "oom " events.oom, line "oom_kill " events.oomKill,
    line "oom_group_kill " events.oomGroupKill, []]

def MemoryEvents.text (events : MemoryEvents) : Str := ['\n'].intercalate events.lines

/-- `str::trim`. -/
def trim (s : Str) : Str :=
  ((s.dropWhile isWhitespace).reverse.dropWhile isWhitespace).reverse

/-- How a VMM ended. -/
inductive VmmEnd
  | byItself (success : Bool)
  | killed
  deriving DecidableEq

/-- A VMM with all the supervisor can see of it. -/
structure Vmm where
  /-- Started by an earlier agent, so that its exit status is lost. -/
  adopted : Bool
  ended : Option VmmEnd
  /-- The guest's vCPUs are paused. -/
  paused : Bool
  /-- `kill` was called. -/
  killed : Bool
  console : List UInt8
  events : MemoryEvents
  deriving DecidableEq

/-- The exit status that `wait` and `ended` give, as far as it is known: whether it is a
success. -/
def Vmm.status (vmm : Vmm) : Option Bool :=
  if vmm.adopted then none
  else vmm.ended.map fun
    | .byItself success => success
    | .killed => false

/-- `oom_killed`. -/
def Vmm.oomKilled (vmm : Vmm) : Bool :=
  vmm.adopted &&
    ((vmm.events.text.splitOn '\n').filterMap (stripPrefix "oom_kill ")).any
      fun count => trim count != ['0']

/-- `kill`, which returns once the VMM has ended. -/
def Vmm.kill (vmm : Vmm) : Vmm :=
  { vmm with ended := some (vmm.ended.getD .killed), killed := true }

def tailBytes : Nat := 16 * 1024

def kernelPanic : List UInt8 := "Kernel panic".toUTF8.data.toList

/-- `console_tail_bytes`. -/
def consoleTailBytes (console : List UInt8) : List UInt8 :=
  console.drop (console.length - tailBytes)

/-- The end of the console shows a panic of the guest's kernel. -/
def panicked (console : List UInt8) : Bool :=
  decide (kernelPanic <:+: consoleTailBytes console)

/-- `natural_end`. -/
def naturalEnd (status : Option Bool) (console : List UInt8) : EndReason :=
  match status with
  | some false => .crashed
  | _ => if panicked console then .crashed else .exited

/-- `vmm_natural_end`. -/
def vmmNaturalEnd (vmm : Vmm) : EndReason :=
  if vmm.oomKilled then .crashed else naturalEnd vmm.status vmm.console

/-- `graceful_end`. -/
def gracefulEnd (vmm : Vmm) : EndReason :=
  match naturalEnd vmm.status vmm.console with
  | .crashed => .crashed
  | _ => .graceful

/-! ## Its state -/

/-- The directories of a VM's files: the root of its jail, and where parks put snapshots. -/
inductive Place
  | jail
  | parked (path : Str)
  deriving DecidableEq

/-- `Stop`. -/
inductive Stop
  | park (into : Str)
  | graceful
  | force

/-- How `park` ended: `Ok`, `Parking::Resumed` or `Parking::Lost`. -/
inductive ParkResult
  | ok
  | resumed
  | lost
  deriving DecidableEq

/-- What a park does next. -/
inductive ParkPc
  | creating
  | pausing
  | snapshotting
  /-- The snapshot failed, and the VM is to go on. -/
  | resuming
  | killing
  | moving
  /-- It failed, and the VM is lost or not. -/
  | removing (lost : Bool)
  | answering (result : ParkResult)
  deriving DecidableEq

/-- What `run_until_ended` does next. -/
inductive Pc
  | waiting
  | parking (into : Str) (doing : ParkPc)
  /-- `graceful_stop`: Ctrl-Alt-Del is on its way, or the guest has it. -/
  | asking
  | stopping
  | killing
  | returned (reason : EndReason)
  deriving DecidableEq

variable {γ : Type}

/-- An answer to a park, and everything as it is right after it. -/
structure Answer (γ : Type) where
  ok : Bool
  pc : Pc
  vmm : Vmm
  files : Files Place Str γ

/-- A park that was taken: the files before it, and its answers, the newest first. -/
structure ParkTaken (γ : Type) where
  into : Str
  before : Files Place Str γ
  answers : List (Answer γ)

end Supervisor

open Supervisor in
/-- A supervisor with its VM. -/
structure Supervisor (γ : Type) where
  pc : Pc
  vmm : Vmm
  files : Files Place Str γ
  /-- The parks it took, the newest first. -/
  parks : List (ParkTaken γ)

namespace Supervisor

variable {γ : Type}

/-- What happens to a supervisor, or what it does next and how that goes. -/
inductive Event (γ : Type)
  /-- The VMM writes to its console, or ends by itself. -/
  | prints (text : List UInt8)
  | ends (success : Bool) (oomKills : Nat)
  /-- `wait` returns. -/
  | notices
  /-- `recv` returns, `none` from a closed channel. -/
  | takes (stop : Option Stop)
  /-- A graceful stop's deadline passes. -/
  | timesOut
  /-- A call to the host or to Firecracker returns. -/
  | call (ok : Bool)
  /-- `create_snapshot` returns, having written both files or neither. -/
  | snapshots (written : Option (γ × γ))
  | renames (allowed : SnapshotFile → Bool)
  /-- A kill, a removal or an answer is done. -/
  | proceeds

/-- The renames of a park, `PARK_FILES` to `SNAPSHOT_FILES`. -/
def renamesOut (allowed : SnapshotFile → Bool) : List (Rename Str) :=
  parkFiles.map fun (jailed, kept) => ⟨jailed.name, kept.name, allowed kept⟩

/-- The files a park writes into the jail, or removes from it. -/
def parkSnapshot (files : Files Place Str γ) (vmstate mem : Option γ) : Files Place Str γ :=
  (files.put .jail JailFile.parkVmstate.name vmstate).put .jail JailFile.parkMem.name mem

variable (s : Supervisor γ)

/-- The park at hand gets an answer, and the supervisor goes on with `pc`. -/
def answer (ok : Bool) (pc : Pc) : Supervisor γ :=
  { s with
    pc := pc
    parks := match s.parks with
      | [] => []
      | park :: rest =>
        { park with answers := ⟨ok, pc, s.vmm, s.files⟩ :: park.answers } :: rest }

/-- A request reaches the supervisor, in the loop it is in. The loops look at the VMM
first, but the VMM may have ended since: an adopted one is looked at now and then. -/
def take (stop : Option Stop) : Option (Supervisor γ) :=
  match s.pc, stop with
  | .waiting, some (.park into) =>
    some { s with
      pc := .parking into .creating, parks := ⟨into, s.files, []⟩ :: s.parks }
  | .waiting, some .graceful => some { s with pc := .asking }
  | .waiting, _ => some { s with pc := .killing }
  | .stopping, some (.park into) =>
    some (answer { s with parks := ⟨into, s.files, []⟩ :: s.parks } false .stopping)
  | .stopping, some .graceful => some s
  | .stopping, _ => some { s with pc := .killing }
  | _, _ => none

/-- A call returns. One that Firecracker carried out found it running. -/
def called (ok : Bool) : Option (Supervisor γ) :=
  let up := s.vmm.ended.isNone
  match s.pc with
  | .asking =>
    if ok then (if up then some { s with pc := .stopping } else none)
    else if up then some { s with pc := .killing }
    else some { s with pc := .returned (vmmNaturalEnd s.vmm) }
  | .parking into .creating =>
    if ok then
      some { s with pc := .parking into .pausing, files := s.files.createDir (.parked into) }
    else some { s with pc := .parking into (.removing false) }
  | .parking into .pausing =>
    if ok then
      if up then
        some { s with
          pc := .parking into .snapshotting, vmm := { s.vmm with paused := true } }
      else none
    else some { s with pc := .parking into (.removing false) }
  | .parking into .resuming =>
    if ok then
      if up then
        some { s with
          pc := .parking into (.removing false), vmm := { s.vmm with paused := false } }
      else none
    else some { s with pc := .parking into (.removing true) }
  | _ => none

/-- The supervisor's own next step, where nothing can go wrong with it. -/
def proceed : Option (Supervisor γ) :=
  match s.pc with
  | .killing => some { s with pc := .returned .forced, vmm := s.vmm.kill }
  | .parking into .killing => some { s with pc := .parking into .moving, vmm := s.vmm.kill }
  | .parking into (.removing lost) =>
    some { s with
      pc := .parking into (.answering (if lost then .lost else .resumed))
      files := s.files.removeDir (.parked into) }
  | .parking _ (.answering .ok) => some (s.answer true (.returned .parked))
  | .parking _ (.answering .resumed) => some (s.answer false .waiting)
  | .parking _ (.answering .lost) => some (s.answer false .killing)
  | _ => none

/-- One step of `run_until_ended`, or of its VMM. -/
def step : Event γ → Option (Supervisor γ)
  | .prints text =>
    if s.vmm.ended.isNone then
      some { s with vmm := { s.vmm with console := s.vmm.console ++ text } }
    else none
  | .ends success oomKills =>
    if s.vmm.ended.isNone then
      some { s with
        vmm := { s.vmm with
          ended := some (.byItself success)
          events := { s.vmm.events with oomKill := s.vmm.events.oomKill + oomKills } } }
    else none
  | .notices =>
    if s.vmm.ended.isSome then
      match s.pc with
      | .waiting => some { s with pc := .returned (vmmNaturalEnd s.vmm) }
      | .stopping => some { s with pc := .returned (gracefulEnd s.vmm) }
      | _ => none
    else none
  | .takes stop => s.take stop
  | .timesOut => if s.pc = .stopping then some { s with pc := .killing } else none
  | .call ok => s.called ok
  | .snapshots written =>
    match s.pc, written with
    | .parking into .snapshotting, some (vmstate, mem) =>
      if s.vmm.ended.isNone then
        some { s with
          pc := .parking into .killing
          files := parkSnapshot s.files (some vmstate) (some mem) }
      else none
    | .parking into .snapshotting, none =>
      some { s with
        pc := .parking into .resuming, files := parkSnapshot s.files none none }
    | _, _ => none
  | .renames allowed =>
    match s.pc with
    | .parking into .moving =>
      let (files, moved) := s.files.moveFiles .jail (.parked into) (renamesOut allowed)
      some { s with
        pc := .parking into (if moved then .answering .ok else .removing true), files }
    | _ => none
  | .proceeds => s.proceed

/-- A supervisor of a VM that has just started, or was just adopted: the guest runs on the
rootfs in its jail, and no stop has been asked for. A VM that stays paused because the `resume`
of its adoption failed is left out. -/
structure Started (s : Supervisor γ) : Prop where
  waiting : s.pc = .waiting
  running : s.vmm.paused = false
  rootfs : (s.files.get .jail JailFile.rootfs.name).isSome
  parks : s.parks = []

/-! ## What a step can do -/

/-- The steps of a supervisor and its VMM, each with what it needs. -/
inductive Move (s : Supervisor γ) : Event γ → Supervisor γ → Prop
  | prints {text} (hup : s.vmm.ended = none) :
      Move s (.prints text) { s with vmm := { s.vmm with console := s.vmm.console ++ text } }
  | ends {success oomKills} (hup : s.vmm.ended = none) :
      Move s (.ends success oomKills) { s with
        vmm := { s.vmm with
          ended := some (.byItself success)
          events := { s.vmm.events with oomKill := s.vmm.events.oomKill + oomKills } } }
  | notices (hpc : s.pc = .waiting) (hended : s.vmm.ended.isSome) :
      Move s .notices { s with pc := .returned (vmmNaturalEnd s.vmm) }
  | noticesStop (hpc : s.pc = .stopping) (hended : s.vmm.ended.isSome) :
      Move s .notices { s with pc := .returned (gracefulEnd s.vmm) }
  | takesPark {into} (hpc : s.pc = .waiting) :
      Move s (.takes (some (.park into))) { s with
        pc := .parking into .creating, parks := ⟨into, s.files, []⟩ :: s.parks }
  | takesGraceful (hpc : s.pc = .waiting) :
      Move s (.takes (some .graceful)) { s with pc := .asking }
  | refusesPark {into} (hpc : s.pc = .stopping) :
      Move s (.takes (some (.park into)))
        (answer { s with parks := ⟨into, s.files, []⟩ :: s.parks } false .stopping)
  | keepsStopping (hpc : s.pc = .stopping) : Move s (.takes (some .graceful)) s
  /-- A forced stop, a closed channel or a deadline. -/
  | givesUp {event} (hpc : s.pc = .waiting ∨ s.pc = .stopping) :
      Move s event { s with pc := .killing }
  | asked (hpc : s.pc = .asking) (hup : s.vmm.ended = none) :
      Move s (.call true) { s with pc := .stopping }
  | askedInVain (hpc : s.pc = .asking) (hup : s.vmm.ended = none) :
      Move s (.call false) { s with pc := .killing }
  | askedEnded (hpc : s.pc = .asking) (hended : s.vmm.ended.isSome) :
      Move s (.call false) { s with pc := .returned (vmmNaturalEnd s.vmm) }
  | created {into} (hpc : s.pc = .parking into .creating) :
      Move s (.call true) { s with
        pc := .parking into .pausing, files := s.files.createDir (.parked into) }
  /-- The directory can't be made, or the VM can't be paused. -/
  | notPaused {into doing} (hpc : s.pc = .parking into doing)
      (hdoing : doing = .creating ∨ doing = .pausing) :
      Move s (.call false) { s with pc := .parking into (.removing false) }
  | paused {into} (hpc : s.pc = .parking into .pausing) (hup : s.vmm.ended = none) :
      Move s (.call true) { s with
        pc := .parking into .snapshotting, vmm := { s.vmm with paused := true } }
  | resumed {into} (hpc : s.pc = .parking into .resuming) (hup : s.vmm.ended = none) :
      Move s (.call true) { s with
        pc := .parking into (.removing false), vmm := { s.vmm with paused := false } }
  | notResumed {into} (hpc : s.pc = .parking into .resuming) :
      Move s (.call false) { s with pc := .parking into (.removing true) }
  | snapshot {into vmstate mem} (hpc : s.pc = .parking into .snapshotting)
      (hup : s.vmm.ended = none) :
      Move s (.snapshots (some (vmstate, mem))) { s with
        pc := .parking into .killing
        files := parkSnapshot s.files (some vmstate) (some mem) }
  | noSnapshot {into} (hpc : s.pc = .parking into .snapshotting) :
      Move s (.snapshots none) { s with
        pc := .parking into .resuming, files := parkSnapshot s.files none none }
  | moved {into allowed} (hpc : s.pc = .parking into .moving)
      (hmoved : (s.files.moveFiles .jail (.parked into) (renamesOut allowed)).2) :
      Move s (.renames allowed) { s with
        pc := .parking into (.answering .ok)
        files := (s.files.moveFiles .jail (.parked into) (renamesOut allowed)).1 }
  | notMoved {into allowed} (hpc : s.pc = .parking into .moving)
      (hmoved : (s.files.moveFiles .jail (.parked into) (renamesOut allowed)).2 = false) :
      Move s (.renames allowed) { s with
        pc := .parking into (.removing true)
        files := (s.files.moveFiles .jail (.parked into) (renamesOut allowed)).1 }
  | kills (hpc : s.pc = .killing) :
      Move s .proceeds { s with pc := .returned .forced, vmm := s.vmm.kill }
  | killsParked {into} (hpc : s.pc = .parking into .killing) :
      Move s .proceeds { s with pc := .parking into .moving, vmm := s.vmm.kill }
  | removes {into lost} (hpc : s.pc = .parking into (.removing lost)) :
      Move s .proceeds { s with
        pc := .parking into (.answering (if lost then .lost else .resumed))
        files := s.files.removeDir (.parked into) }
  | answersOk {into} (hpc : s.pc = .parking into (.answering .ok)) :
      Move s .proceeds (s.answer true (.returned .parked))
  | answersResumed {into} (hpc : s.pc = .parking into (.answering .resumed)) :
      Move s .proceeds (s.answer false .waiting)
  | answersLost {into} (hpc : s.pc = .parking into (.answering .lost)) :
      Move s .proceeds (s.answer false .killing)

theorem move_of_take {s s' : Supervisor γ} {stop} (h : s.take stop = some s') :
    Move s (.takes stop) s' := by
  unfold take at h
  split at h
  case h_1 into hpc => cases h; exact .takesPark hpc
  case h_2 hpc => cases h; exact .takesGraceful hpc
  case h_3 hpc _ _ => cases h; exact .givesUp (.inl hpc)
  case h_4 into hpc => cases h; exact .refusesPark hpc
  case h_5 hpc => cases h; exact .keepsStopping hpc
  case h_6 hpc _ _ => cases h; exact .givesUp (.inr hpc)
  case h_7 => cases h

theorem move_of_called {s s' : Supervisor γ} {ok} (h : s.called ok = some s') :
    Move s (.call ok) s' := by
  have hup : s.vmm.ended.isNone = false ↔ s.vmm.ended.isSome := by
    cases s.vmm.ended <;> simp
  unfold called at h
  split at h
  case h_1 hpc =>
    cases ok <;> cases hnone : s.vmm.ended.isNone <;> rw [hnone] at h <;> cases h
    · exact .askedEnded hpc (hup.mp hnone)
    · exact .askedInVain hpc (isNone_iff_eq_none.mp hnone)
    · exact .asked hpc (isNone_iff_eq_none.mp hnone)
  case h_2 hpc =>
    cases ok <;> cases h
    · exact .notPaused hpc (.inl rfl)
    · exact .created hpc
  case h_3 hpc =>
    cases ok
    · cases h
      exact .notPaused hpc (.inr rfl)
    · cases hnone : s.vmm.ended.isNone <;> rw [hnone] at h <;> cases h
      exact .paused hpc (isNone_iff_eq_none.mp hnone)
  case h_4 hpc =>
    cases ok
    · cases h
      exact .notResumed hpc
    · cases hnone : s.vmm.ended.isNone <;> rw [hnone] at h <;> cases h
      exact .resumed hpc (isNone_iff_eq_none.mp hnone)
  case h_5 => cases h

theorem move_of_proceed {s s' : Supervisor γ} (h : s.proceed = some s') : Move s .proceeds s' := by
  unfold proceed at h
  split at h
  case h_1 hpc => cases h; exact .kills hpc
  case h_2 hpc => cases h; exact .killsParked hpc
  case h_3 hpc => cases h; exact .removes hpc
  case h_4 hpc => cases h; exact .answersOk hpc
  case h_5 hpc => cases h; exact .answersResumed hpc
  case h_6 hpc => cases h; exact .answersLost hpc
  case h_7 => cases h

theorem move_of_step {s s' : Supervisor γ} {event} (h : s.step event = some s') :
    Move s event s' := by
  cases event with
  | prints text =>
    obtain ⟨hup, rfl⟩ := ite_some_none_eq_some.mp h
    exact .prints (isNone_iff_eq_none.mp hup)
  | ends success oomKills =>
    obtain ⟨hup, rfl⟩ := ite_some_none_eq_some.mp h
    exact .ends (isNone_iff_eq_none.mp hup)
  | notices =>
    obtain ⟨hended, hs⟩ := ite_none_right_eq_some.mp h
    split at hs
    case h_1 hpc => cases hs; exact .notices hpc hended
    case h_2 hpc => cases hs; exact .noticesStop hpc hended
    case h_3 => cases hs
  | takes stop => exact move_of_take h
  | timesOut =>
    obtain ⟨hpc, rfl⟩ := ite_some_none_eq_some.mp h
    exact .givesUp (.inr hpc)
  | call ok => exact move_of_called h
  | snapshots written =>
    simp only [step] at h
    split at h
    case h_1 hpc =>
      obtain ⟨hup, rfl⟩ := ite_some_none_eq_some.mp h
      exact .snapshot hpc (isNone_iff_eq_none.mp hup)
    case h_2 hpc => cases h; exact .noSnapshot hpc
    case h_3 => cases h
  | renames allowed =>
    simp only [step] at h
    split at h
    case h_1 into hpc =>
      cases hmoved : (s.files.moveFiles .jail (.parked into) (renamesOut allowed)).2 <;>
        rw [hmoved] at h <;> cases h
      · exact .notMoved hpc hmoved
      · exact .moved hpc hmoved
    case h_2 => cases h
  | proceeds => exact move_of_proceed h

end Supervisor

end Cirrocumulus.Node
