/-
# Where a Node stands with a name

A Node works for many names at once, and what it is about to do for one of them is
spread over the table, the tasks and how far the agent's start is. `Stands` gathers
that for one name. Every name stands somewhere, and as its entry says.
-/

import Cirrocumulus.Node.Addresses

namespace Cirrocumulus.Node

open Std (ExtTreeMap)

variable {node : System} {vm : Vm} {info : VmInfo} {log : Str}

/-- Where a Node stands with one name. -/
inductive Standing
  /-- No agent runs. -/
  | down
  /-- An agent starts, and has yet to take the name's record back. -/
  | loading
  | absent
  /-- History, with where its removal is. -/
  | ended (info : VmInfo) (log : Str) (removal : Option RemovePc)
  | launching (task : Nat) (launch : Launch) (pc : LaunchPc) (vm : Vm)
  | running (task : Nat) (info : VmInfo) (log : Str) (pc : SupervisePc) (vm : Vm)

/-- The address at which a task works for the name. -/
def Standing.vmAddress : Standing → Option Ipv4Addr
  | .launching _ launch _ _ => some launch.vmAddress
  | .running _ _ _ _ vm => some vm.vmAddress
  | _ => none

/-- The entry of a name with which a Node stands so. -/
def Standing.entry : Standing → Option Entry
  | .down | .loading | .absent => none
  | .ended info log _ => some (.ended info log)
  | .launching _ launch _ _ => some (.starting launch.vmAddress launch.log launch.route)
  | .running task info log _ _ => some (.running info log task)

/-- A name for which no task works, with the history it has. -/
def Standing.history : Option Replaced → Standing
  | none => .absent
  | some old => .ended old.info old.log none

/-- The addresses an agent that starts has yet to sweep. -/
def Boot.sweeping : Boot → List Ipv4Addr
  | .sweep todo => todo
  | .clean vmAddress _ todo => vmAddress :: todo
  | _ => []

namespace AgentProcess

/-- Where the removal of the name's history is. -/
def removal (up : AgentProcess) (name : Str) : Option RemovePc :=
  up.removing.bind fun item => if item.1 = name then some item.2 else none

/-- Where an agent at work stands with a name. -/
inductive Stands (up : AgentProcess) (name : Str) : Standing → Prop
  | loading {record} (hrecord : record ∈ up.boot.todo)
      (hname : record.info.name = name) : Stands up name .loading
  | absent (hentry : up.agent.vms[name]? = none)
      (hload : ∀ record ∈ up.boot.todo, record.info.name ≠ name) : Stands up name .absent
  | ended {info : VmInfo} {log} (hentry : up.agent.vms[name]? = some (.ended info log)) :
      Stands up name (.ended info log (up.removal name))
  | launching {task launch pc vm} (hlaunch : up.agent.launches[task]? = some launch)
      (hname : launch.name = name) (hpc : up.launching[task]? = some (pc, vm)) :
      Stands up name (.launching task launch pc vm)
  | running {task info log pc vm} (hsup : up.agent.supervisors[task]? = some name)
      (hentry : up.agent.vms[name]? = some (.running info log task))
      (hpc : up.supervising[task]? = some (pc, vm)) : Stands up name (.running task info log pc vm)

/-- No record is taken back before the snapshots were looked through, history that is
being removed is there, and nobody holds what is left to sweep. -/
structure Settled (subnet : Subnet) (up : AgentProcess) : Prop where
  loading : ∀ {dirs records}, up.boot = .snapshots dirs records →
    ∀ name : Str, up.agent.vms[name]? = none
  removing : ∀ {name pc}, up.removing = some (name, pc) →
    ∃ info log, up.agent.vms[name]? = some (.ended info log)
  sweeping : ∀ {address}, address ∈ up.boot.sweeping → address ∈ subnet.vmAddresses ∧
    ∀ (name : Str) (entry : Entry), up.agent.vms[name]? = some entry →
      entry.vmAddress ≠ some address

end AgentProcess

/-- Where a Node stands with a name. -/
inductive System.Stands (node : System) (name : Str) : Standing → Prop
  | down (hup : node.up = none) : System.Stands node name .down
  | up {up : AgentProcess} {standing} (hup : node.up = some up)
      (h : up.Stands name standing) : System.Stands node name standing

/-- An agent runs, and its socket is open. -/
def System.Ready (node : System) : Prop := ∃ up, node.up = some up ∧ up.boot = .ready

theorem System.not_ready_of_none (h : node.up = none) : ¬ node.Ready := by
  rintro ⟨up, hup, -⟩
  rw [h] at hup
  cases hup

def System.Settled (subnet : Subnet) (node : System) : Prop :=
  ∀ up, node.up = some up → up.Settled subnet

variable {subnet : Subnet} {host : Host}

theorem System.Settled.of_up {up}
    (h : up.Settled subnet) : System.Settled subnet ⟨host, some up⟩ := by
  intro after hafter
  cases hafter
  exact h

theorem System.Settled.down : System.Settled subnet ⟨host, none⟩ := by
  intro after hafter
  cases hafter

/-! ## Nobody holds what is swept -/

theorem Host.mem_unheld {vms address} : address ∈ host.unheld subnet vms ↔
      address ∈ host.stateOwners.filterMap subnet.vmAddressWithLow16 ∧
        ∀ (name : Str) (entry : Entry), vms[name]? = some entry →
          entry.vmAddress ≠ some address := by
  simp only [Host.unheld, List.mem_filter, and_congr_right_iff]
  intro _
  rw [Bool.not_eq_true', Bool.eq_false_iff, Ne, List.contains_iff_mem, List.mem_filterMap]
  constructor
  · intro hnot name entry hentry haddress
    exact hnot ⟨(name, entry), Lib.mem_items.mpr hentry, haddress⟩
  · rintro hnone ⟨⟨name, entry⟩, hitem, haddress⟩
    exact hnone name entry (Lib.mem_items.mp hitem) haddress

namespace AgentProcess

variable {subnet : Subnet} {host : Host} {up up' : AgentProcess} {task : Nat}
  {outcome : Outcome} {now : Nat} {next : System} {name : Str}

/-- Whoever is removed has a removal. -/
theorem removing_of_removal (up : AgentProcess) {pc} (h : up.removal name = some pc) :
    up.removing = some (name, pc) := by
  obtain ⟨⟨found, pc'⟩, hremoving, hpc⟩ := Option.bind_eq_some_iff.mp h
  obtain ⟨hname, hpc⟩ := Option.ite_none_right_eq_some.mp hpc
  rw [hremoving, ← hname, ← Option.some.inj hpc]

theorem Settled.of_idle (hload : ∀ dirs records, up.boot ≠ .snapshots dirs records)
    (hsweep : up.boot.sweeping = []) (hremoving : up.removing = none) : up.Settled subnet := by
  refine ⟨fun hboot => absurd hboot (hload _ _), fun hsome => ?_, fun hmem => ?_⟩
  · rw [hremoving] at hsome
    cases hsome
  · rw [hsweep] at hmem
    cases hmem

section

theorem Settled.of_ready (hready : up.boot = .ready) (hremoving : up.removing = none) :
    up.Settled subnet :=
  .of_idle (by simp [hready]) (by rw [hready]; rfl) hremoving

variable (h : up.Settled subnet)
include h

variable (hup : up.Sound subnet host)
include hup

theorem Settled.bootMove (hmove : up.BootMove subnet host outcome now next) :
    next.Settled subnet := by
  have hidle (hboot : up.boot ≠ .ready) : up.removing = none := (hup.booting hboot).2
  cases hmove with
  | keepSnapshot hboot | dropSnapshot hboot =>
    refine .of_up { h with loading := fun _ => h.loading hboot, sweeping := fun hmem => ?_ }
    cases hmem
  | snapshotsDone hboot | ended hboot | alive hboot | gone hboot =>
    exact .of_up (.of_idle (by simp) rfl (hidle (by simp [hboot])))
  | unmarked | refused => exact .down
  | recordsDone hboot =>
    refine .of_up ⟨fun hnot => (by cases hnot), h.removing, fun {address} hmem => ?_⟩
    obtain ⟨howner, hfree⟩ := Host.mem_unheld.mp hmem
    obtain ⟨low, -, hlow⟩ := List.mem_filterMap.mp howner
    exact ⟨subnet.mem_of_vmAddressWithLow16 hlow, hfree⟩
  | killAll hboot | undo hboot =>
    refine .of_up { h with loading := nofun, sweeping := fun hmem => h.sweeping ?_ }
    rw [hboot]
    exact hmem
  | cleaned hboot =>
    refine .of_up { h with loading := nofun, sweeping := fun hmem => h.sweeping ?_ }
    rw [hboot]
    exact List.mem_cons_of_mem _ hmem

theorem Settled.removeMove (hmove : up.RemoveMove host outcome next) : next.Settled subnet := by
  cases hmove with
  | snapshot hremoving hentry hparked =>
    refine .of_up { h with removing := fun hsome => ?_ }
    dsimp only at hsome
    split at hsome
    · cases hsome
      exact h.removing hremoving
    · cases hsome
  | noSnapshot hremoving | delete hremoving =>
    refine .of_up { h with removing := fun hsome => ?_ }
    cases hsome
    exact h.removing hremoving
  | refused hremoving hfailed => exact .of_up { h with removing := nofun }
  | erase hremoving hentry => exact .of_up (.of_ready (hup.ready_of_removing hremoving) rfl)

theorem Settled.launchMove {launch pc} (hlaunch : up.agent.launches[task]? = some launch)
    (hmove : up.LaunchMove host task outcome now launch pc vm next) : next.Settled subnet := by
  have hready := hup.ready_of_launch hlaunch
  cases hmove with
  | handOver hpc hunlocked | giveUp hpc hunlocked | lose hpc hunlocked =>
    exact .of_up (.of_ready hready (unlocked_iff.mp hunlocked))
  | effect hstep => exact .of_up { h with }

theorem Settled.superviseMove {reason pc} (hsup : up.agent.supervisors[task]? = some name)
    (hmove : up.SuperviseMove host task outcome reason now name pc vm next) :
    next.Settled subnet := by
  cases hmove with
  | @record why agent hpc hunlocked hagent =>
    refine .of_up ⟨fun hboot => ?_, fun hsome => ?_, fun hmem => ?_⟩
    · obtain ⟨info, log, hrunning, -⟩ := hup.owned.supervisor_entry hsup
      rw [h.loading hboot] at hrunning
      cases hrunning
    · dsimp only at hsome
      rw [unlocked_iff.mp hunlocked] at hsome
      cases hsome
    · obtain ⟨hvm, hfree⟩ := h.sweeping hmem
      refine ⟨hvm, fun other entry hentry haddress => ?_⟩
      obtain ⟨found, hfound, rfl⟩ := vmEnded_eq_some hagent
      cases hsup.symm.trans hfound
      obtain ⟨info, log, hrunning, -⟩ := hup.owned.supervisor_entry hsup
      dsimp only at hentry
      rw [lookup_recordEnd hrunning] at hentry
      split at hentry
      · cases hentry
        cases haddress
      · exact hfree other entry hentry haddress
  | effect hstep => exact .of_up { h with }

theorem Settled.step {event} (hmove : up.Move subnet host event next) : next.Settled subnet := by
  cases hmove with
  | starts hmove => exact h.bootMove hup hmove
  | removes hmove => exact h.removeMove hup hmove
  | launches hlaunch hpc hmove => exact h.launchMove hup hlaunch hmove
  | supervises hsup hpc hmove => exact h.superviseMove hup hsup hmove
  | opens hboot => exact .of_up (.of_ready rfl (hup.booting (by simp [hboot])).2)
  | begins hfrom hmove =>
    obtain ⟨hready, hunlocked, -⟩ := hmove
    exact .of_up (.of_ready hready hunlocked)
  | removing hready hunlocked hentry =>
    refine .of_up ⟨h.loading, fun hsome => ?_, fun hmem => h.sweeping hmem⟩
    cases hsome
    exact ⟨_, _, hentry⟩
  | onMachines hready hsame =>
    have hvms := hsame.1.symm
    exact .of_up ⟨hvms ▸ h.loading, hvms ▸ h.removing, hvms ▸ h.sweeping⟩
  | asked | sigterm => exact .of_up { h with }
  | exits | crashes => exact .down

end

end AgentProcess

/-- What holds in every state that a Node reaches. -/
structure System.Reached (subnet : Subnet) (node : System) : Prop where
  sound : node.Sound subnet
  settled : node.Settled subnet

theorem System.Reached.step {next event} (h : node.Reached subnet)
    (hstep : node.step subnet event = some next) : next.Reached subnet := by
  refine ⟨h.sound.step hstep, ?_⟩
  rcases System.step_eq_some hstep with ⟨vmAddress, process, -, rfl⟩ | ⟨-, -, rfl⟩ |
    ⟨up, hup, hstep⟩
  · exact h.settled
  · refine .of_up ⟨fun _ name => ?_, fun hsome => (by cases hsome), fun hmem => (by cases hmem)⟩
    simp [AgentProcess.start, Agent.empty]
  · exact (h.settled up hup).step (h.sound.up hup) hstep

theorem System.Reached.fresh (subnet : Subnet) : System.fresh.Reached subnet :=
  ⟨.fresh subnet, .down⟩

theorem System.Reached.of_run {schedule}
    (hrun : Lib.run (System.step subnet) .fresh schedule = some node) : node.Reached subnet :=
  Lib.run_preserves_all (fun h hstep => h.step hstep) (.fresh subnet) hrun

/-! ## How a name stands -/

variable {subnet : Subnet} {host : Host} {up up' : AgentProcess} {task : Nat}
  {name : Str} {s s' : Standing}

namespace AgentProcess

/-- An agent that agrees on a name. -/
structure Agrees (up' up : AgentProcess) (name : Str) : Prop where
  vms : up'.agent.vms[name]? = up.agent.vms[name]? := by rfl
  launch : ∀ {task : Nat} {launch} {item},
    up'.agent.launches[task]? = some launch → launch.name = name →
    up'.launching[task]? = some item →
      up.agent.launches[task]? = some launch ∧ up.launching[task]? = some item := by
    exact fun hlaunch _ hpc => ⟨hlaunch, hpc⟩
  supervisor : ∀ {task : Nat} {item},
    up'.agent.supervisors[task]? = some name → up'.supervising[task]? = some item →
      up.agent.supervisors[task]? = some name ∧ up.supervising[task]? = some item := by
    exact And.intro
  todo : ∀ record : Record, record.info.name = name →
    (record ∈ up'.boot.todo ↔ record ∈ up.boot.todo) := by exact fun _ _ => Iff.rfl
  removal : up'.removal name = up.removal name := by rfl

/-- It stands the same with the name. -/
theorem Stands.of_agrees (h : up'.Stands name s) (hagrees : up'.Agrees up name) :
    up.Stands name s := by
  obtain ⟨hvms, hlaunch, hsup, htodo, hremoval⟩ := hagrees
  cases h with
  | loading hrecord hname => exact .loading ((htodo _ hname).mp hrecord) hname
  | absent hentry hload =>
    refine .absent (hvms ▸ hentry) fun record hrecord hname => ?_
    exact hload record ((htodo record hname).mpr hrecord) hname
  | ended hentry =>
    rw [hremoval]
    exact .ended (hvms ▸ hentry)
  | launching hown hname hpc =>
    obtain ⟨hown', hpc'⟩ := hlaunch hown hname hpc
    exact .launching hown' hname hpc'
  | running hown hentry hpc =>
    obtain ⟨hown', hpc'⟩ := hsup hown hpc
    exact .running hown' (hvms ▸ hentry) hpc'

/-- A sound agent stands somewhere with every name. -/
theorem Sound.exists_stands (h : up.Sound subnet host) (name : Str) : ∃ s, up.Stands name s := by
  cases hentry : up.agent.vms[name]? with
  | none =>
    by_cases hload : ∃ record ∈ up.boot.todo, record.info.name = name
    · obtain ⟨record, hrecord, hname⟩ := hload
      exact ⟨_, .loading hrecord hname⟩
    · push Not at hload
      exact ⟨_, .absent hentry hload⟩
  | some entry =>
    cases entry with
    | starting vmAddress log route =>
      obtain ⟨task, launch, hlaunch, hname⟩ := h.owned.starting_launch hentry
      obtain ⟨pc, vm, hpc, -⟩ := h.launching hlaunch
      exact ⟨_, .launching hlaunch hname hpc⟩
    | running info log task =>
      have hsup := h.owned.running_supervisor hentry
      obtain ⟨pc, vm, _, _, hpc, -⟩ := h.supervising hsup
      exact ⟨_, .running hsup hentry hpc⟩
    | ended info log => exact ⟨_, .ended hentry⟩

section

variable (hs : up.Stands name s)
include hs

variable (h : up.Sound subnet host)
include h

theorem Stands.entry_eq : up.agent.vms[name]? = s.entry := by
  cases hs with
  | loading hrecord hname =>
    subst hname
    exact h.todo.absent hrecord
  | launching hlaunch hname =>
    subst hname
    exact h.owned.launch_entry hlaunch
  | absent hentry | ended hentry | running _ hentry => exact hentry

/-- The name's entry holds the address at which a task works for it. -/
theorem Stands.held {a} (haddress : s.vmAddress = some a) :
    ∃ entry : Entry, up.agent.vms[name]? = some entry ∧ entry.vmAddress = some a := by
  have hentry := hs.entry_eq h
  cases hs with
  | loading | absent | ended => cases haddress
  | launching hlaunch => exact ⟨_, hentry, haddress⟩
  | running hsup _ hpc =>
    obtain ⟨info', log', hentry', hsound⟩ := h.superviseSound hsup hpc
    cases hentry.symm.trans hentry'
    exact ⟨_, hentry, hsound.vmAddress.trans haddress⟩

/-- A sound agent stands with a name in one way: as its entry and its tasks say. -/
theorem Stands.unique (hs' : up.Stands name s') : s = s' := by
  have heq : s.entry = s'.entry := (hs.entry_eq h).symm.trans (hs'.entry_eq h)
  cases hs with
  | loading hrecord hname =>
    cases hs' with
    | loading => rfl
    | absent hentry hload => exact absurd hname (hload _ hrecord)
    | _ => cases heq
  | absent hentry hload =>
    cases hs' with
    | loading hrecord hname => exact absurd hname (hload _ hrecord)
    | absent => rfl
    | _ => cases heq
  | ended =>
    cases hs' with
    | ended =>
      cases heq
      rfl
    | _ => cases heq
  | launching hlaunch hname hpc =>
    cases hs' with
    | launching hlaunch' hname' hpc' =>
      cases h.owned.launch_unique hlaunch hlaunch' (hname.trans hname'.symm)
      cases hlaunch.symm.trans hlaunch'
      cases hpc.symm.trans hpc'
      rfl
    | _ => cases heq
  | running hsup hentry hpc =>
    cases hs' with
    | running hsup' hentry' hpc' =>
      cases heq
      cases hpc.symm.trans hpc'
      rfl
    | _ => cases heq

theorem Stands.eq_running {pc} (hentry : up.agent.vms[name]? = some (.running info log task))
    (hpc : up.supervising[task]? = some (pc, vm)) : s = .running task info log pc vm :=
  hs.unique h (.running (h.owned.running_supervisor hentry) hentry hpc)

theorem Stands.eq_absent (hentry : up.agent.vms[name]? = none) (htodo : up.boot.todo = []) :
    s = .absent :=
  hs.unique h (.absent hentry (by simp [htodo]))

theorem Stands.eq_history (hentry : up.agent.vms[name]? = some (.ended info log))
    (hremoving : up.removing = none) :
    s = .ended info log none := by
  rw [hs.unique h (.ended hentry), removal, hremoving]
  rfl

end

end AgentProcess

theorem System.Stands.of_up {up name s}
    (h : System.Stands ⟨host, some up⟩ name s) : up.Stands name s := by
  cases h with
  | down hup => cases hup
  | up hup h =>
    cases hup
    exact h

section

theorem System.Stands.of_launching {launch pc}
    (h : node.Stands name (.launching task launch pc vm)) :
    ∃ up, node.up = some up ∧ up.agent.launches[task]? = some launch ∧ launch.name = name ∧
      up.launching[task]? = some (pc, vm) := by
  cases h with
  | up hup h =>
    cases h with
    | launching hlaunch hname hpc => exact ⟨_, hup, hlaunch, hname, hpc⟩

theorem System.Stands.of_running {pc} (h : node.Stands name (.running task info log pc vm)) :
    ∃ up, node.up = some up ∧ up.agent.supervisors[task]? = some name ∧
      up.agent.vms[name]? = some (.running info log task) ∧
      up.supervising[task]? = some (pc, vm) := by
  cases h with
  | up hup h =>
    cases h with
    | running hsup hentry hpc => exact ⟨_, hup, hsup, hentry, hpc⟩

variable (h : node.Reached subnet)
include h

/-- A Node stands somewhere with every name. -/
theorem System.Reached.exists_stands (name : Str) : ∃ s, node.Stands name s := by
  cases hup : node.up with
  | none => exact ⟨.down, .down hup⟩
  | some up =>
    obtain ⟨s, hs⟩ := (h.sound.up hup).exists_stands name
    exact ⟨s, .up hup hs⟩

theorem System.Reached.stands_unique (hs : node.Stands name s)
    (hs' : node.Stands name s') : s = s' := by
  cases hs with
  | down hup =>
    cases hs' with
    | down => rfl
    | up hup' => cases hup.symm.trans hup'
  | up hup hs =>
    cases hs' with
    | down hup' => cases hup.symm.trans hup'
    | up hup' hs' =>
      cases hup.symm.trans hup'
      exact hs.unique (h.sound.up hup) hs'

/-- A launch's task knows its VM. -/
theorem System.Reached.launchSound {launch pc}
    (hs : node.Stands name (.launching task launch pc vm)) :
    AgentProcess.LaunchSound node.host launch pc vm := by
  obtain ⟨up, hup, hlaunch, -, hpc⟩ := hs.of_launching
  exact (h.sound.up hup).launchSound hlaunch hpc

/-- A supervisor knows its VM. -/
theorem System.Reached.superviseSound {pc} (hs : node.Stands name (.running task info log pc vm)) :
    AgentProcess.SuperviseSound node.host info pc vm := by
  obtain ⟨up, hup, hsup, hentry, hpc⟩ := hs.of_running
  obtain ⟨info', log', hentry', hsound⟩ := (h.sound.up hup).superviseSound hsup hpc
  cases hentry.symm.trans hentry'
  exact hsound

/-- A Running entry stands as its supervisor says. -/
theorem System.Reached.stands_of_running (hup : node.up = some up)
    (hentry : up.agent.vms[name]? = some (.running info log task)) :
    ∃ pc vm, node.Stands name (.running task info log pc vm) := by
  have hsup := (h.sound.up hup).owned.running_supervisor hentry
  obtain ⟨pc, vm, _, _, hpc, -⟩ := (h.sound.up hup).supervising hsup
  exact ⟨pc, vm, .up hup (.running hsup hentry hpc)⟩

end

end Cirrocumulus.Node
