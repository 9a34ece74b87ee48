/-
# One VM's life

What a start, a wake and a supervisor do between the moments they hold the table's
lock: one step for each effect on the host, in the source's order, with the ways it
can come out. Every step works on the VM's own slice of the host, so each is a
function of that slice. A step that meets the table (handing a VM over, putting a
record back, recording an end) is left to the agent.
-/

import Cirrocumulus.Node.Host
import Cirrocumulus.Node.Agent

namespace Cirrocumulus.Node

/-- What a task holds of its VM. -/
structure Vm where
  vmAddress : Ipv4Addr
  /-- The VMM, once jailer was spawned. -/
  process : Option ProcessId
  /-- The steps that undo what was done so far, the next one first. -/
  undo : List Undo
  /-- Whether the jail's path is known yet. -/
  jailRoot : Bool
  deriving DecidableEq

/-- `Vm::empty`. -/
def Vm.empty (vmAddress : Ipv4Addr) : Vm := ⟨vmAddress, none, [], false⟩

/-- `Vm::adopt`. -/
def Vm.adopt (vmAddress : Ipv4Addr) (process : ProcessId) : Vm :=
  ⟨vmAddress, some process, undoSteps, true⟩

/-! ## A start or a wake -/

/-- What a start or wake does next. -/
inductive LaunchPc
  | addNetns
  | spawnJailer
  | addLinks
  | awaitSocket
  /-- The kernel and the rootfs into the jail. -/
  | copyRootfs
  /-- The devices, the boot, guest-init's config and the grace period. -/
  | boot
  /-- The snapshot into the jail, `todo` left; `failed` once a rename failed. -/
  | moveIn (todo : List (JailFile × SnapshotFile)) (failed : Bool)
  | loadSnapshot
  | record
  /-- Recorded: the replaced VM's log, or the emptied snapshot directory, goes. -/
  | tidy (startedAt : Nat)
  | handOver (startedAt : Nat)
  /-- A wake failed: the snapshot back out of the jail. -/
  | moveBack (todo : List (JailFile × SnapshotFile))
  /-- Teardown. A VM that woke and could not be recorded is `lost`. -/
  | kill (lost : Bool)
  | unwind (lost : Bool)
  | giveUp
  | markLost
  | lose (ended : Ended)
  deriving DecidableEq

variable (launch : Launch)

def Launch.isWake : Bool := launch.kind matches .wake _

/-- Where a launch goes when one of its steps fails: `Vm::wake` puts the snapshot back
first. -/
def Launch.onError : LaunchPc :=
  match launch.kind with
  | .start _ => .kill false
  | .wake _ => .moveBack wakeFiles

/-- Where a launch goes when it can't record its VM. -/
def Launch.onUnrecorded : LaunchPc :=
  match launch.kind with
  | .start _ => .kill false
  | .wake _ => .kill true

/-- Steps 5 and 6: a start copies its rootfs and boots, a wake brings its snapshot. -/
def Launch.onHostUp : LaunchPc :=
  match launch.kind with
  | .start _ => .copyRootfs
  | .wake _ => .moveIn wakeFiles false

/-- One effect of a launch, or nothing at a point where it meets the table. `fresh` is
the process jailer would become. -/
def Launch.step (fresh : ProcessId) (outcome : Outcome) (now : Nat)
    (pc : LaunchPc) (vm : Vm) (view : View) : Option (LaunchPc × Vm × View) :=
  let next (pc : LaunchPc) : LaunchPc := if outcome = .ok then pc else launch.onError
  match pc with
  | .addNetns =>
    some (next .spawnJailer,
      if outcome = .ok then { vm with undo := .netns :: vm.undo } else vm,
      { view with objects := outcome.applied ({ · with netns := true }) view.objects })
  | .spawnJailer =>
    -- The undo steps are pushed before the spawn. A jailer that exits before it can be
    -- identified leaves its jail and cgroup, but no process.
    let vm := { vm with undo := .cgroup :: .jail :: vm.undo, jailRoot := true }
    match outcome with
    | .ok => some (.addLinks, { vm with process := some fresh },
        { view with objects := view.objects.spawn [fresh] })
    | .partly => some (launch.onError, vm, { view with objects := view.objects.spawn [] })
    | .failed => some (launch.onError, vm, view)
  | .addLinks =>
    some (next .awaitSocket, { vm with undo := .link :: vm.undo },
      { view with objects := outcome.applied ({ · with link := true }) view.objects })
  | .awaitSocket => some (next launch.onHostUp, vm, view)
  | .copyRootfs =>
    some (next .boot, vm,
      { view with objects := outcome.applied (·.withFile .rootfs) view.objects })
  | .boot => some (next .record, vm, view)
  | .moveIn ((jailFile, file) :: todo) failed =>
    match if outcome = .ok then view.moveIn jailFile file else none with
    | some moved => some (.moveIn todo failed, vm, moved)
    | none => some (.moveIn todo true, vm, view)
  | .moveIn [] failed => some (if failed then launch.onError else .loadSnapshot, vm, view)
  | .loadSnapshot => some (next .record, vm, view)
  | .record =>
    if outcome = .ok then
      vm.process.map fun process =>
        (.tidy now, vm, { view with row := some (runningRow (launch.info now) launch.log process) })
    else some (launch.onUnrecorded, vm, view)
  | .tidy startedAt =>
    -- `remove_dir` only succeeds on an empty directory.
    some (.handOver startedAt, vm,
      if launch.isWake && view.snapshot == some [] && outcome == .ok then
        { view with snapshot := none }
      else view)
  | .moveBack ((jailFile, file) :: todo) =>
    -- Without the jail's path the sources are relative, and there are none.
    match if outcome = .ok ∧ vm.jailRoot then view.moveOut jailFile file else none with
    | some moved => some (.moveBack todo, vm, moved)
    | none => some (.moveBack todo, vm, view)
  | .moveBack [] => some (.kill false, vm, view)
  | .kill lost =>
    some (.unwind lost, vm, { view with objects := view.objects.kill vm.process })
  | .unwind lost =>
    match vm.undo with
    | step :: undo =>
      some (.unwind lost, { vm with undo },
        if outcome = .ok then { view with objects := view.objects.undo step } else view)
    | [] => some (if lost then .markLost else .giveUp, vm, view)
  | .markLost =>
    let ended : Ended := ⟨now, .forced⟩
    some (.lose ended, vm,
      if outcome = .ok then { view with row := view.row.map (·.markEnded ended) } else view)
  | .handOver _ | .giveUp | .lose _ => none

/-! ## A supervisor -/

/-- What a supervisor does next. -/
inductive SupervisePc
  /-- `run_until_ended`'s loop, waiting for the VMM's end or a stop. -/
  | watch
  /-- A park: the directory, the pause, the snapshot in the jail, the kill, the moves. -/
  | makeDir
  | pause
  | snapshot
  | parkKill
  | moveOut (todo : List (JailFile × SnapshotFile)) (failed : Bool)
  /-- A park failed: its directory goes, and the VM runs on unless it is `lost`. -/
  | dropDir (lost : Bool)
  /-- A graceful stop: Ctrl-Alt-Del, then waiting for the VMM's end. -/
  | askToStop
  | stopping
  /-- Teardown, and why the VM ended. -/
  | kill (reason : EndReason)
  | unwind (reason : EndReason)
  | record (reason : EndReason)
  deriving DecidableEq

/-- A request to a supervisor. The end of a graceful stop's deadline counts as `force`. -/
inductive Stop
  | graceful | force | park
  deriving DecidableEq

/-- A supervisor takes a request. A VM that is stopping refuses to be parked. -/
def SupervisePc.take : SupervisePc → Stop → Option SupervisePc
  | .watch, .graceful => some .askToStop
  | .watch, .force => some (.kill .forced)
  | .watch, .park => some .makeDir
  | .stopping, .force => some (.kill .forced)
  | .stopping, _ => some .stopping
  | _, _ => none

/-- `natural_end`: how a VMM ends that nothing asked to. -/
def EndReason.natural (reason : EndReason) : Bool := reason == .exited || reason == .crashed

/-- Whether the VM's VMM runs. -/
def Vm.alive (vm : Vm) (view : View) : Bool := vm.process.any view.objects.procs.contains

/-- One effect of a supervisor, or nothing while it waits or meets the table. `reason` is
what the VMM's end looks like, once it has ended by itself. -/
def Vm.supervise (vm : Vm) (outcome : Outcome) (reason : EndReason) (pc : SupervisePc)
    (view : View) : Option (SupervisePc × Vm × View) :=
  match pc with
  | .watch =>
    if !vm.alive view && reason.natural then some (.kill reason, vm, view) else none
  | .makeDir =>
    some (if outcome = .ok then .pause else .dropDir false, vm,
      { view with snapshot := outcome.applied (fun old => some (old.getD [])) view.snapshot })
  | .pause => some (if outcome = .ok then .snapshot else .dropDir false, vm, view)
  | .snapshot =>
    -- When it fails the VM is resumed, and is lost if that fails too.
    if outcome = .ok then
      some (.parkKill, vm,
        { view with objects := (view.objects.withFile .parkVmstate).withFile .parkMem })
    else
      some (.dropDir (outcome == .partly), vm,
        { view with objects := (view.objects.withoutFile .parkVmstate).withoutFile .parkMem })
  | .parkKill =>
    some (.moveOut parkFiles false, vm, { view with objects := view.objects.kill vm.process })
  | .moveOut ((jailFile, file) :: todo) failed =>
    match if outcome = .ok then view.moveOut jailFile file else none with
    | some moved => some (.moveOut todo failed, vm, moved)
    | none => some (.moveOut todo true, vm, view)
  | .moveOut [] failed => some (if failed then .dropDir true else .kill .parked, vm, view)
  | .dropDir lost =>
    some (if lost then .kill .forced else .watch, vm,
      match outcome with
      | .ok => { view with snapshot := none }
      | .partly => { view with snapshot := some [] }
      | .failed => view)
  | .askToStop =>
    -- When it can't be asked, most likely the VM has just ended on its own.
    if outcome = .ok then some (.stopping, vm, view)
    else if vm.alive view then some (.kill .forced, vm, view)
    else if reason.natural then some (.kill reason, vm, view)
    else none
  | .stopping =>
    if !vm.alive view && (reason == .graceful || reason == .crashed) then
      some (.kill reason, vm, view)
    else none
  | .kill reason =>
    some (.unwind reason, vm, { view with objects := view.objects.kill vm.process })
  | .unwind reason =>
    match vm.undo with
    | step :: undo =>
      some (.unwind reason, { vm with undo },
        if outcome = .ok then { view with objects := view.objects.undo step } else view)
    | [] => some (.record reason, vm, view)
  | .record _ => none

end Cirrocumulus.Node
