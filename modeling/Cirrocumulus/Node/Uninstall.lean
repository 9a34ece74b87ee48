/-
# Uninstalling a Node

`uninstall` refuses while a VM runs, unless it is forced. Then it stops the agent, cleans
up the VMs that are recorded, and removes the state directory. It finds VMs through the
addresses of the records, where an agent that starts would look at the host objects. And
it looks for VMs that run before the agent is stopped, which goes on meanwhile.

Stopping the unit and the commands of a clean-up succeed here. What `uninstall` undoes of
the installation itself (the group, the firewall, the egress policy) is left out.
-/

import Cirrocumulus.Node.Sweep

namespace Cirrocumulus.Node

open Lib List Option
open Std (ExtTreeMap)

/-! ## What is cleaned up -/

/-- `clean_up`, for the objects of one VM. -/
def Objects.cleaned (objects : Objects) : Objects := undoSteps.foldl undo objects.killAll

namespace Host

def cleanUp (host : Host) (vmAddress : Ipv4Addr) : Host :=
  host.setObjects vmAddress (host.objectsAt (hostId vmAddress)).cleaned

def cleanUpRecord (host : Host) (record : Record) : Host :=
  record.info.vmAddress.elim host host.cleanUp

/-- `clean_up_vms`. -/
def cleanUpVms (host : Host) : Host := host.rows.load.foldl cleanUpRecord host

/-- The state directory goes, with the store, the snapshots and the jails. -/
def removeStateDir (host : Host) : Host :=
  { host with
    rows := ∅
    snapshots := ∅
    objects := host.objects.map fun _ objects => { objects with jail := none } }

/-- The host after `uninstall`. -/
def uninstalled (host : Host) : Host := host.cleanUpVms.removeStateDir

end Host

/-- Some record's address gives the name to host objects. -/
def namesObjects (records : List Record) (id : Str) : Bool :=
  records.any fun record => record.info.vmAddress.any fun a => hostId a == id

/-- A namespace, a veth or a cgroup is there. -/
def Objects.left (objects : Objects) : Bool := objects.netns || objects.link || objects.cgroup

theorem Objects.cleaned_eq (objects : Objects) :
    objects.cleaned = ⟨false, false, .none, false, objects.killAll.procs⟩ := by
  unfold cleaned killAll
  split
  · simp [undoSteps, undo]
  · rename_i hcgroup
    simp [undoSteps, undo, hcgroup]

theorem Objects.cleaned_cleaned (objects : Objects) :
    objects.cleaned.cleaned = objects.cleaned := by
  rw [cleaned_eq objects.cleaned, cleaned_eq objects]
  rfl

theorem Host.objectsAt_cleanUpRecord (host : Host) (record : Record) (id : Str) :
    (host.cleanUpRecord record).objectsAt id =
      if record.info.vmAddress.any (hostId · == id) then (host.objectsAt id).cleaned
      else host.objectsAt id := by
  unfold cleanUpRecord
  cases record.info.vmAddress with
  | none => rfl
  | some a =>
    simp only [elim_some, any_some, cleanUp, objectsAt_setObjects, beq_iff_eq]
    by_cases heq : id = hostId a
    · simp [heq]
    · simp [heq, Ne.symm heq]

/-- The objects of every recorded address are cleaned up, and no others. -/
theorem Host.objectsAt_cleanUp (host : Host) (records : List Record) (id : Str) :
    (records.foldl cleanUpRecord host).objectsAt id =
      if namesObjects records id then (host.objectsAt id).cleaned else host.objectsAt id := by
  induction records generalizing host with
  | nil => rfl
  | cons record records ih =>
    have hnames : namesObjects (record :: records) id =
        (record.info.vmAddress.any (hostId · == id) || namesObjects records id) := rfl
    rw [foldl_cons, ih, objectsAt_cleanUpRecord, hnames]
    cases record.info.vmAddress.any (hostId · == id) <;> cases namesObjects records id <;>
      simp [Objects.cleaned_cleaned]

theorem Host.objectsAt_uninstalled (host : Host) (id : Str) :
    host.uninstalled.objectsAt id = { host.cleanUpVms.objectsAt id with jail := none } := by
  simp only [uninstalled, removeStateDir, objectsAt, ExtTreeMap.getElem?_map]
  cases host.cleanUpVms.objects[id]? <;> rfl

theorem Host.left_uninstalled (host : Host) (id : Str) :
    (host.uninstalled.objectsAt id).left ↔
      (host.objectsAt id).left ∧ namesObjects host.rows.load id = false := by
  rw [objectsAt_uninstalled, cleanUpVms, objectsAt_cleanUp]
  cases namesObjects host.rows.load id with
  | false => simp [Objects.left]
  | true => simp [Objects.left, Objects.cleaned_eq]

/-- Whatever an agent has left, `uninstall` leaves no namespace, veth or cgroup of a VM address,
and so no VMM in one, exactly if each that was there is of an address that is recorded. -/
theorem uninstall_leaves_nothing_iff (subnet : Subnet) (host : Host) :
    (∀ a ∈ subnet.vmAddresses, (host.uninstalled.objectsAt (hostId a)).left = false) ↔
      ∀ a ∈ subnet.vmAddresses, (host.objectsAt (hostId a)).left = true →
        namesObjects host.rows.load (hostId a) = true := by
  apply forall₂_congr
  intro a _
  have hleft := host.left_uninstalled (hostId a)
  cases hnames : namesObjects host.rows.load (hostId a) <;> simp_all

/-- A start is cut off before it is recorded. -/
def cutOffSchedule : List NodeEvent :=
  NodeEvent.boots 2 ++ [.runVm (.sample "web" none) "web.log", .launch 0 .ok 0,
    .launch 0 .ok 0, .crash]

/-- Its namespace and its VMM are left. -/
theorem uninstall_leaves_vmm :
    ∃ node, run (System.step .sample) .fresh cutOffSchedule = some node ∧
      node.up.isNone = true ∧
      (node.host.uninstalled.objectsAt (hostId 0x0A4D0002#32)).netns = true ∧
      (node.host.uninstalled.objectsAt (hostId 0x0A4D0002#32)).cgroup = true ∧
      (node.host.uninstalled.objectsAt (hostId 0x0A4D0002#32)).procs = [1] := by
  decide +kernel

/-! ## Whom it kills -/

/-- The VMMs that run. -/
def Host.vmms (host : Host) : List ProcessId := host.objects.toList.flatMap fun item => item.2.procs

theorem Host.mem_vmms {host : Host} {process} :
    process ∈ host.vmms ↔ ∃ id, process ∈ (host.objectsAt id).procs := by
  simp only [vmms, mem_flatMap, Prod.exists, mem_items,
    objectsAt]
  constructor
  · rintro ⟨id, objects, hobjects, hmem⟩
    exact ⟨id, by rwa [hobjects]⟩
  · rintro ⟨id, hmem⟩
    cases hobjects : host.objects[id]? with
    | none =>
      rw [hobjects] at hmem
      cases hmem
    | some objects =>
      rw [hobjects] at hmem
      exact ⟨id, objects, hobjects, hmem⟩

/-- No VMM is started by `uninstall`. -/
theorem Host.mem_of_mem_vmms_uninstalled {host : Host} {process}
    (h : process ∈ host.uninstalled.vmms) : process ∈ host.vmms := by
  obtain ⟨id, hmem⟩ := mem_vmms.mp h
  rw [objectsAt_uninstalled, cleanUpVms, objectsAt_cleanUp] at hmem
  apply mem_vmms.mpr
  refine ⟨id, ?_⟩
  split at hmem
  · simp only [Objects.cleaned_eq, Objects.killAll] at hmem
    split at hmem
    · cases hmem
    · exact hmem
  · exact hmem

/-- Where `uninstall` stands. -/
inductive UninstallPc
  | load
  /-- Looking whether the VMs of the records run, some of which do. -/
  | check (todo : List Record) (running : List Str)
  | refused (running : List Str)
  | stopUnit
  | stopping
  | cleanUp
  | done
  deriving DecidableEq

/-- The unit is being stopped, or is gone: no agent starts. -/
def UninstallPc.stops : UninstallPc → Bool
  | .stopping | .cleanUp | .done => true
  | _ => false

/-- Nothing was changed yet. -/
def UninstallPc.looks : UninstallPc → Bool
  | .load | .check _ _ | .refused _ => true
  | _ => false

/-- A Node that is uninstalled, and the VMMs that were killed for it. -/
structure Uninstall where
  node : System
  force : Bool
  pc : UninstallPc := .load
  killed : List ProcessId := []

inductive UninstallEvent
  | node (event : NodeEvent)
  | proceed

namespace Uninstall

/-- The next step of `uninstall`. -/
def proceed (un : Uninstall) : Option Uninstall :=
  match un.pc with
  | .load =>
    some { un with pc := if un.force then .stopUnit else .check un.node.host.rows.load [] }
  | .check (record :: todo) running =>
    let runs := record.process.any un.node.host.vmms.contains
    some { un with pc := .check todo (if runs then running ++ [record.info.name] else running) }
  | .check [] running =>
    some { un with pc := if running.isEmpty then .stopUnit else .refused running }
  | .stopUnit =>
    some { un with
      node := (un.node.up.bind (·.sigterm un.node.host)).getD un.node
      pc := .stopping }
  | .stopping => if un.node.up.isNone then some { un with pc := .cleanUp } else none
  | .cleanUp =>
    let host := un.node.host.uninstalled
    some { un with
      node := ⟨host, un.node.up⟩
      pc := .done
      killed := un.node.host.vmms.filter fun process => !host.vmms.contains process }
  | .refused _ | .done => none

def step (subnet : Subnet) (un : Uninstall) : UninstallEvent → Option Uninstall
  | .node event =>
    if un.pc.stops && (event matches .boot) then none
    else (un.node.step subnet event).map fun node => { un with node }
  | .proceed => un.proceed

/-- Every VMM that runs when the records are read is recorded, and none is started from then
on. -/
def quiet (subnet : Subnet) (un : Uninstall) : UninstallEvent → Bool
  | .node event => un.pc == .load || (un.node.step subnet event).all fun node =>
      node.host.vmms.all un.node.host.vmms.contains
  | .proceed => un.pc != .load || un.node.host.vmms.all fun process =>
      un.node.host.rows.load.any fun record => record.process == some process

def Quiet (subnet : Subnet) (un : Uninstall) (event : UninstallEvent) : Prop :=
  un.quiet subnet event = true

instance (subnet : Subnet) (un : Uninstall) (event : UninstallEvent) :
    Decidable (un.Quiet subnet event) := inferInstanceAs (Decidable (_ = _))

/-- What is known of the VMMs that run, where `uninstall` stands. -/
def Spared (un : Uninstall) : Prop :=
  match un.pc with
  | .load | .refused _ => True
  | .check todo running => running = [] → ∀ process ∈ un.node.host.vmms,
      ∃ record ∈ todo, record.process = some process
  | .stopUnit | .stopping | .cleanUp | .done => un.node.host.vmms = []

variable {subnet : Subnet} {un next : Uninstall} {event : UninstallEvent}

/-- VMMs that end take nothing of this away. -/
theorem Spared.mono (h : un.Spared) {node}
    (hsub : ∀ process ∈ node.host.vmms, process ∈ un.node.host.vmms) :
    ({ un with node } : Uninstall).Spared := by
  unfold Spared at h ⊢
  split
  · trivial
  · trivial
  · rename_i hpc
    rw [hpc] at h
    exact fun hnone process hprocess => h hnone process (hsub process hprocess)
  all_goals
    rename_i hpc
    rw [hpc] at h
    rw [h] at hsub
    exact eq_nil_iff_forall_not_mem.mpr fun process hprocess =>
      not_mem_nil (hsub process hprocess)

/-- What holds while `uninstall` runs without `--force`. -/
structure Sparing (un : Uninstall) : Prop where
  force : un.force = false
  spared : un.Spared
  killed : un.killed = []

theorem Sparing.node (h : un.Sparing) {event} (hquiet : un.Quiet subnet (.node event)) {node}
    (hnode : un.node.step subnet event = some node) : ({ un with node } : Uninstall).Sparing := by
  refine ⟨h.force, ?_, h.killed⟩
  by_cases hload : un.pc = .load
  · simp [Spared, hload]
  · apply h.spared.mono
    simpa [Quiet, quiet, hload, hnode] using hquiet

/-- A record's VM does not run, and the others are left to look at. -/
theorem spared_check {record} {todo : List Record} {running} {host : Host}
    (h : running = [] → ∀ process ∈ host.vmms,
      ∃ found ∈ record :: todo, found.process = some process)
    (hnone : (if record.process.any host.vmms.contains then running ++ [record.info.name]
      else running) = []) :
    ∀ process ∈ host.vmms, ∃ found ∈ todo, found.process = some process := by
  split at hnone
  · simp at hnone
  · rename_i hdead
    intro process hprocess
    obtain ⟨found, hfound, heq⟩ := h hnone process hprocess
    rcases mem_cons.mp hfound with rfl | hfound
    · simp [heq, hprocess] at hdead
    · exact ⟨found, hfound, heq⟩

theorem Sparing.proceed (h : un.Sparing) (hquiet : un.Quiet subnet .proceed)
    (hstep : un.proceed = some next) : next.Sparing := by
  have hspared := h.spared
  unfold Spared at hspared
  unfold Uninstall.proceed at hstep
  split at hstep
  · rename_i hpc
    cases hstep
    refine ⟨h.force, ?_, h.killed⟩
    simpa [Quiet, quiet, hpc, Spared, h.force] using hquiet
  · rename_i record todo running hpc
    cases hstep
    rw [hpc] at hspared
    exact ⟨h.force, spared_check hspared, h.killed⟩
  · rename_i running hpc
    cases hstep
    rw [hpc] at hspared
    refine ⟨h.force, ?_, h.killed⟩
    cases running with
    | cons => trivial
    | nil =>
      refine eq_nil_iff_forall_not_mem.mpr fun process hprocess => ?_
      obtain ⟨record, hrecord, -⟩ := hspared rfl process hprocess
      cases hrecord
  · rename_i hpc
    cases hstep
    rw [hpc] at hspared
    refine ⟨h.force, ?_, h.killed⟩
    have hhost : ((un.node.up.bind (·.sigterm un.node.host)).getD un.node).host = un.node.host := by
      cases un.node.up with
      | none => rfl
      | some up =>
        simp only [bind_some, AgentProcess.sigterm]
        split <;> rfl
    simpa only [Spared, hhost] using hspared
  · rename_i hpc
    obtain ⟨-, rfl⟩ := ite_some_none_eq_some.mp hstep
    rw [hpc] at hspared
    exact ⟨h.force, hspared, h.killed⟩
  · rename_i hpc
    cases hstep
    rw [hpc] at hspared
    refine ⟨h.force, eq_nil_iff_forall_not_mem.mpr fun process hprocess => ?_, ?_⟩
    · have hbefore := Host.mem_of_mem_vmms_uninstalled hprocess
      rw [hspared] at hbefore
      cases hbefore
    · simp [hspared]
  · cases hstep
  · cases hstep

theorem Sparing.step (h : un.Sparing) (hquiet : un.Quiet subnet event)
    (hstep : un.step subnet event = some next) : next.Sparing := by
  cases event with
  | node event =>
    obtain ⟨-, hstep⟩ := ite_none_left_eq_some.mp hstep
    obtain ⟨node, hnode, rfl⟩ := map_eq_some_iff.mp hstep
    exact h.node hquiet hnode
  | proceed => exact h.proceed hquiet hstep

/-- The Node's own step. -/
def nodeEvent : UninstallEvent → Option NodeEvent
  | .node event => some event
  | .proceed => none

/-- Until `uninstall` has looked, and if it then refuses, the Node is what it made of itself. -/
theorem unchanged {schedule} (hrun : run (step subnet) un schedule = some next)
    (hlooks : next.pc.looks) : un.pc.looks ∧
      run (System.step subnet) un.node (schedule.filterMap nodeEvent) = some next.node := by
  induction schedule generalizing un with
  | nil =>
    cases hrun
    exact ⟨hlooks, rfl⟩
  | cons event rest ih =>
    obtain ⟨middle, hstep, hrest⟩ := run_cons_eq_some.mp hrun
    obtain ⟨hmiddle, hnode⟩ := ih hrest
    cases event with
    | node event =>
      obtain ⟨-, hstep⟩ := ite_none_left_eq_some.mp hstep
      obtain ⟨node, hevent, rfl⟩ := map_eq_some_iff.mp hstep
      exact ⟨hmiddle, run_cons_eq_some.mpr ⟨node, hevent, hnode⟩⟩
    | proceed =>
      have hstep : un.proceed = some middle := hstep
      unfold Uninstall.proceed at hstep
      split at hstep
      · rename_i hpc
        cases hstep
        exact ⟨by rw [hpc]; rfl, hnode⟩
      · rename_i hpc
        cases hstep
        exact ⟨by rw [hpc]; rfl, hnode⟩
      · rename_i hpc
        cases hstep
        exact ⟨by rw [hpc]; rfl, hnode⟩
      · cases hstep
        cases hmiddle
      · obtain ⟨-, rfl⟩ := ite_some_none_eq_some.mp hstep
        cases hmiddle
      · cases hstep
        cases hmiddle
      · cases hstep
      · cases hstep

end Uninstall

open Uninstall in
/-- Without `--force`, `uninstall` kills no VMM, and goes on only when none runs, as long as every
VMM that runs when it reads the records is recorded and none is started from then on. When it
refuses, it has changed nothing. -/
theorem uninstall_kills_no_vmm (subnet : Subnet) {node : System} {schedule : List UninstallEvent}
    {un : Uninstall}
    (hquiet : Along (Uninstall.step subnet) (Quiet subnet) ⟨node, false, .load, []⟩ schedule)
    (hrun : run (Uninstall.step subnet) ⟨node, false, .load, []⟩ schedule = some un) :
    un.killed = [] ∧ (un.pc.looks = false → un.node.host.vmms = []) ∧
    (un.pc.looks = true → run (System.step subnet) node (schedule.filterMap nodeEvent) =
      some un.node) := by
  have hstart : (⟨node, false, .load, []⟩ : Uninstall).Sparing := ⟨rfl, trivial, rfl⟩
  have hsparing : un.Sparing :=
    run_preserves (fun hquiet h hstep => h.step hquiet hstep) hstart hquiet hrun
  refine ⟨hsparing.killed, fun hlooks => ?_, fun hlooks => (unchanged hrun hlooks).2⟩
  have hspared := hsparing.spared
  unfold Spared at hspared
  cases hpc : un.pc <;> rw [hpc] at hspared hlooks <;> first | exact hspared | cases hlooks

/-- The records are read, the unit stopped, and the VMs cleaned up, with steps of the Node before
and between. -/
def uninstalls (before between : List NodeEvent) : List UninstallEvent :=
  before.map .node ++ [.proceed, .proceed, .proceed] ++ between.map .node ++ [.proceed, .proceed]

/-- A recorded VM runs. -/
def vmRuns : List NodeEvent :=
  NodeEvent.boots 2 ++ [.runVm (.sample "web" none) "web.log"] ++
    List.replicate 9 (.launch 0 .ok 0)

/-- It is refused, and the VM runs on. -/
theorem uninstall_refused_while_vm_runs :
    ∃ un, run (Uninstall.step .sample) ⟨.fresh, false, .load, []⟩
        (vmRuns.map .node ++ List.replicate 3 .proceed) = some un ∧
      un.pc = .refused ["web"] ∧ un.node.host.vmms = [1] ∧ un.killed = [] ∧
      run (System.step .sample) .fresh vmRuns = some un.node := by
  obtain ⟨un, hrun, hpc, hvmms⟩ : ∃ un,
      run (Uninstall.step .sample) ⟨.fresh, false, .load, []⟩
        (vmRuns.map .node ++ List.replicate 3 .proceed) = some un ∧
      un.pc = .refused ["web"] ∧ un.node.host.vmms = [1] := by decide +kernel
  obtain ⟨hkilled, -, hsame⟩ := uninstall_kills_no_vmm .sample (by decide +kernel) hrun
  exact ⟨un, hrun, hpc, hvmms, hkilled, hsame (by rw [hpc]; rfl)⟩

/-- A start is under way when the records are read, and recorded before the agent is stopped. -/
theorem uninstall_kills_new_vm :
    ∃ un, run (Uninstall.step .sample) ⟨.fresh, false, .load, []⟩
        (uninstalls (NodeEvent.boots 2 ++ [.runVm (.sample "web" none) "web.log"])
          (List.replicate 9 (.launch 0 .ok 0) ++ [.exit])) = some un ∧
      un.pc = .done ∧ un.killed = [1] := by
  decide +kernel

end Cirrocumulus.Node
