/-
# What a Node holds for its VMs

What outlives the agent: the rows of the state database, the snapshots of parked VMs,
and the host objects of VMs, all of which are named by `host_id` of a VM address.
Work on one VM sees one slice of this: the row and the snapshot under the VM's name,
and the objects under the id of its address. `View` is that slice, and taking it out
and putting it back touches nothing else.
-/

import Cirrocumulus.Node.Store

namespace Cirrocumulus.Node

open Std (ExtTreeMap)

/-- `SNAPSHOT_FILES`: what a parked VM's snapshot directory holds. -/
inductive SnapshotFile
  | vmstate | mem | rootfs
  deriving DecidableEq

/-- The files of a jail that a park writes or a wake puts there. -/
inductive JailFile
  | parkVmstate | parkMem | wakeVmstate | wakeMem | rootfs
  deriving DecidableEq

/-- `PARK_FILES`, each with the snapshot file it becomes. -/
def parkFiles : List (JailFile × SnapshotFile) :=
  [(.parkVmstate, .vmstate), (.parkMem, .mem), (.rootfs, .rootfs)]

/-- `WAKE_FILES`, each with the snapshot file it is made from. -/
def wakeFiles : List (JailFile × SnapshotFile) :=
  [(.wakeVmstate, .vmstate), (.wakeMem, .mem), (.rootfs, .rootfs)]

/-- The host objects of one name. A VMM runs in the cgroup that jailer made for it. -/
structure Objects where
  netns : Bool
  link : Bool
  /-- The jail directory, with those of its files that matter here. -/
  jail : Option (List JailFile)
  cgroup : Bool
  procs : List ProcessId
  deriving DecidableEq

def Objects.none : Objects := ⟨false, false, .none, false, []⟩

variable (objects : Objects)

/-- Some object has the name. -/
def Objects.present : Bool :=
  objects.netns || objects.link || objects.jail.isSome || objects.cgroup

/-- The Node as an agent finds it when it starts. -/
structure Host where
  rows : Rows
  snapshots : ExtTreeMap Str (List SnapshotFile) compare
  objects : ExtTreeMap Str Objects compare
  nextProcess : ProcessId

namespace Host

def empty : Host := ⟨∅, ∅, ∅, 0⟩

def objectsAt (host : Host) (id : Str) : Objects := host.objects[id]?.getD .none

/-- `ProcessId::is_running`, for the VMM of the VM at an address. -/
def isRunning (host : Host) (vmAddress : Ipv4Addr) (process : ProcessId) : Bool :=
  (host.objectsAt (hostId vmAddress)).procs.contains process

end Host

/-- What the host holds for one VM. -/
structure View where
  row : Option Row
  snapshot : Option (List SnapshotFile)
  objects : Objects
  deriving DecidableEq

/-- Write a map's value under one key, or remove it. -/
def setKey {ν : Type} (map : ExtTreeMap Str ν compare) (key : Str) :
    Option ν → ExtTreeMap Str ν compare
  | some value => map.insert key value
  | none => map.erase key

namespace Host

def view (host : Host) (name : Str) (vmAddress : Ipv4Addr) : View :=
  ⟨host.rows[name]?, host.snapshots[name]?, host.objectsAt (hostId vmAddress)⟩

/-- Put a VM's slice back. A new process may have been started meanwhile. -/
def put (host : Host) (name : Str) (vmAddress : Ipv4Addr) (view : View) : Host where
  rows := setKey host.rows name view.row
  snapshots := setKey host.snapshots name view.snapshot
  objects := host.objects.insert (hostId vmAddress) view.objects
  nextProcess := host.nextProcess + 1

end Host

/-! ## Effects -/

/-- How a command, a call or a statement came out. -/
inductive Outcome
  | ok
  /-- It failed and had no effect. -/
  | failed
  /-- It failed, and its effect is there. -/
  | partly
  deriving DecidableEq

/-- Its effect is there. -/
def Outcome.applied {α : Type} (outcome : Outcome) (effect : α → α) (a : α) : α :=
  match outcome with
  | .failed => a
  | .ok | .partly => effect a

/-- One step of teardown. -/
inductive Undo
  | netns | link | jail | cgroup
  deriving DecidableEq

/-- `undo_steps`, in the order they are run. -/
def undoSteps : List Undo := [.link, .cgroup, .jail, .netns]

/-- `Undo::run`, when its command succeeds. A cgroup with a process in it stays. -/
def Objects.undo : Undo → Objects
  | .netns => { objects with netns := false }
  | .link => { objects with link := false }
  | .jail => { objects with jail := .none }
  | .cgroup => { objects with cgroup := objects.cgroup && !objects.procs.isEmpty }

/-- Kill one process and wait for its end. -/
def Objects.kill : Option ProcessId → Objects
  | some process => { objects with procs := objects.procs.filter (· ≠ process) }
  | .none => objects

/-- `kill_cgroup`: every process of the cgroup, if it is there. -/
def Objects.killAll : Objects :=
  if objects.cgroup then { objects with procs := [] } else objects

/-- What jailer makes when it is spawned: the jail, the cgroup and the VMM in it. -/
def Objects.spawn (processes : List ProcessId) : Objects :=
  { objects with
    jail := some (objects.jail.getD [])
    cgroup := true
    procs := processes ++ objects.procs }

def Objects.withFile (file : JailFile) : Objects :=
  { objects with jail := objects.jail.map (file :: ·) }

def Objects.withoutFile (file : JailFile) : Objects :=
  { objects with jail := objects.jail.map (·.filter (· ≠ file)) }

namespace View

/-- Rename a file of the snapshot into the jail, if it is there. -/
def moveIn (view : View) (jailFile : JailFile) (file : SnapshotFile) : Option View :=
  match view.snapshot, view.objects.jail with
  | some files, some _ =>
    if file ∈ files then
      some { view with
        snapshot := some (files.filter (· ≠ file))
        objects := view.objects.withFile jailFile }
    else none
  | _, _ => none

/-- Rename a file of the jail into the snapshot's directory, if it is there. -/
def moveOut (view : View) (jailFile : JailFile) (file : SnapshotFile) : Option View :=
  match view.snapshot, view.objects.jail with
  | some files, some inJail =>
    if jailFile ∈ inJail then
      some { view with
        snapshot := some (file :: files.filter (· ≠ file))
        objects := view.objects.withoutFile jailFile }
    else none
  | _, _ => none

end View

/-! ## One VM's slice -/

@[simp]
theorem lookup_setKey {ν} (map : ExtTreeMap Str ν compare) (key : Str) (value : Option ν)
    (other : Str) :
    (setKey map key value)[other]? = if other = key then value else map[other]? := by
  cases value with
  | none => exact Lib.lookup_erase map key other
  | some value => exact Lib.lookup_insert map key value other

namespace Host

variable (host : Host) (name : Str) (vmAddress : Ipv4Addr) (view : View)

theorem objectsAt_put (id : Str) :
    (host.put name vmAddress view).objectsAt id =
      if id = hostId vmAddress then view.objects else host.objectsAt id := by
  simp only [objectsAt, put, Lib.lookup_insert]
  split <;> rfl

theorem rows_put (other : Str) :
    (host.put name vmAddress view).rows[other]? =
      if other = name then view.row else host.rows[other]? :=
  lookup_setKey _ _ _ _

theorem snapshots_put (other : Str) :
    (host.put name vmAddress view).snapshots[other]? =
      if other = name then view.snapshot else host.snapshots[other]? :=
  lookup_setKey _ _ _ _

theorem view_put_self : (host.put name vmAddress view).view name vmAddress = view := by
  simp [Host.view, rows_put, snapshots_put, objectsAt_put]

end Host

end Cirrocumulus.Node
