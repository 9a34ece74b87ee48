/-
# Every name has one owner

A name whose entry is Starting belongs to exactly one start or wake, one whose entry
is Running to exactly one supervisor, and any other name to nobody. Each update of
the table is one of a few moves (a name is reserved, a launch ends, a VM is handed
to a supervisor, a supervisor ends, history is removed), and each move keeps this.
-/

import Cirrocumulus.Node.Agent

namespace Cirrocumulus.Node

open Std (ExtTreeMap)
open Lib List Option

variable {next : Agent} {task : Nat} {name : Str} {subnet : Subnet} {launch : Launch}
  {event : AgentEvent} {vms : Table}

/-- The table and the tasks agree on who works for which name, and what runs has an address. -/
structure Owned (agent : Agent) : Prop where
  launch_entry : ∀ {task : Nat} {launch}, agent.launches[task]? = some launch →
    agent.vms[launch.name]? = some (.starting launch.vmAddress launch.log launch.route)
  supervisor_entry : ∀ {task : Nat} {name : Str}, agent.supervisors[task]? = some name →
    ∃ info log, agent.vms[name]? = some (.running info log task) ∧ info.name = name
  starting_launch : ∀ {name : Str} {vmAddress} {log : Str} {route},
    agent.vms[name]? = some (.starting vmAddress log route) →
      ∃ (task : Nat) (launch : Launch), agent.launches[task]? = some launch ∧ launch.name = name
  running_supervisor : ∀ {name : Str} {info} {log : Str} {task : Nat},
    agent.vms[name]? = some (.running info log task) → agent.supervisors[task]? = some name
  addressed : ∀ {name : Str} {info} {log : Str} {task : Nat},
    agent.vms[name]? = some (.running info log task) → info.vmAddress.isSome
  launch_unique : ∀ {task other : Nat} {launch launch'},
    agent.launches[task]? = some launch → agent.launches[other]? = some launch' →
      launch.name = launch'.name → task = other
  launch_lt : ∀ {task : Nat} {launch}, agent.launches[task]? = some launch →
    task < agent.nextTask
  supervisor_lt : ∀ {task : Nat} {name : Str}, agent.supervisors[task]? = some name →
    task < agent.nextTask

/-- A name is reserved for a launch, and its task is spawned. -/
def Agent.reserve (agent : Agent) (launch : Launch) : Agent :=
  agent.spawnLaunch (agent.vms.insert launch.name
    (.starting launch.vmAddress launch.log launch.route)) launch

/-- No task works for the name: it is absent or an Ended VM's. -/
def Idle (agent : Agent) (name : Str) : Prop :=
  ∀ entry : Entry, agent.vms[name]? = some entry → ∃ info log, entry = .ended info log

variable {agent : Agent}

theorem owned_empty : Owned Agent.empty := by
  refine ⟨?_, ?_, ?_, ?_, ?_, ?_, ?_, ?_⟩ <;> simp [Agent.empty]

namespace Owned

section

variable (h : Owned agent)
include h

theorem name_ne_of_idle_launch (hidle : Idle agent name)
    (hlaunch : agent.launches[task]? = some launch) : launch.name ≠ name := by
  rintro rfl
  obtain ⟨info, log, heq⟩ := hidle _ (h.launch_entry hlaunch)
  cases heq

theorem name_ne_of_idle_supervisor (hidle : Idle agent name) {other}
    (hsup : agent.supervisors[task]? = some other) : other ≠ name := by
  rintro rfl
  obtain ⟨info, log, hentry, -⟩ := h.supervisor_entry hsup
  obtain ⟨info', log', heq⟩ := hidle _ hentry
  cases heq

/-- No supervisor works for a launch's name. -/
theorem supervisor_ne_launch {other : Nat} (hlaunch : agent.launches[task]? = some launch)
    (hsup : agent.supervisors[other]? = some name) : name ≠ launch.name := by
  rintro rfl
  obtain ⟨info, log, hentry, -⟩ := h.supervisor_entry hsup
  rw [h.launch_entry hlaunch] at hentry
  cases hentry

/-- Two supervisors of one name are the same. -/
theorem supervisor_unique {other} (hsup : agent.supervisors[task]? = some name)
    (hother : agent.supervisors[other]? = some name) : task = other := by
  obtain ⟨info, log, hentry, -⟩ := h.supervisor_entry hsup
  obtain ⟨info', log', hentry', -⟩ := h.supervisor_entry hother
  rw [hentry] at hentry'
  cases hentry'
  rfl

/-! ## The moves -/

theorem reserve (hidle : Idle agent launch.name) :
    Owned (agent.reserve launch) where
  launch_entry := by
    intro task other hother
    obtain ⟨-, rfl⟩ | ⟨-, hother⟩ := of_lookup_insert hother
    · simp [Agent.reserve, Agent.spawnLaunch]
    · exact (lookup_insert_of_ne _ (h.name_ne_of_idle_launch hidle hother)).trans
        (h.launch_entry hother)
  supervisor_entry := by
    intro task name hsup
    rw [Agent.reserve, Agent.spawnLaunch,
      lookup_insert_of_ne _ (h.name_ne_of_idle_supervisor hidle hsup)]
    exact h.supervisor_entry hsup
  starting_launch := by
    intro name vmAddress log route hentry
    obtain ⟨rfl, -⟩ | ⟨-, hentry⟩ := of_lookup_insert hentry
    · exact ⟨agent.nextTask, launch, by simp [Agent.reserve, Agent.spawnLaunch], rfl⟩
    · obtain ⟨task, other, hother, hname⟩ := h.starting_launch hentry
      exact ⟨task, other, (lookup_insert_of_ne _ (h.launch_lt hother).ne).trans hother, hname⟩
  running_supervisor := by
    intro name info log task hentry
    obtain ⟨-, ⟨⟩⟩ | ⟨-, hentry⟩ := of_lookup_insert hentry
    exact h.running_supervisor hentry
  addressed := by
    intro name info log task hentry
    obtain ⟨-, ⟨⟩⟩ | ⟨-, hentry⟩ := of_lookup_insert hentry
    exact h.addressed hentry
  launch_unique := by
    intro task other first second hfirst hsecond hname
    refine unique_insert (R := fun a b => a.name = b.name) h.launch_unique
      (fun _ hfound => ⟨fun hsame => ?_, fun hsame => ?_⟩) hfirst hsecond hname
    · exact h.name_ne_of_idle_launch hidle hfound hsame.symm
    · exact h.name_ne_of_idle_launch hidle hfound hsame
  launch_lt := fun hfound => forall_insert (Nat.lt_succ_self _)
    (fun hother => (h.launch_lt hother).trans (Nat.lt_succ_self _)) hfound
  supervisor_lt := fun hsup => (h.supervisor_lt hsup).trans (Nat.lt_succ_self _)

/-- Whoever works for a name stops, and leaves an Ended VM or nothing under it. -/
theorem release {name} (left : Option Replaced) (hvms : ∀ other : Str, next.vms[other]? =
      if other = name then left.map fun old => .ended old.info old.log else agent.vms[other]?)
    (hlaunches : ∀ {task : Nat} {launch}, next.launches[task]? = some launch ↔
      agent.launches[task]? = some launch ∧ launch.name ≠ name)
    (hsupervisors : ∀ {task : Nat} {owner : Str}, next.supervisors[task]? = some owner ↔
      agent.supervisors[task]? = some owner ∧ owner ≠ name)
    (hnext : next.nextTask = agent.nextTask) : Owned next where
  launch_entry := by
    intro task launch hlaunch
    obtain ⟨hold, hne⟩ := hlaunches.mp hlaunch
    rw [hvms, if_neg hne, h.launch_entry hold]
  supervisor_entry := by
    intro task owner hsup
    obtain ⟨hold, hne⟩ := hsupervisors.mp hsup
    rw [hvms, if_neg hne]
    exact h.supervisor_entry hold
  starting_launch := by
    intro other vmAddress log route hentry
    rw [hvms] at hentry
    split at hentry
    · cases left <;> cases hentry
    · rename_i hne
      obtain ⟨task, launch, hlaunch, rfl⟩ := h.starting_launch hentry
      exact ⟨task, launch, hlaunches.mpr ⟨hlaunch, hne⟩, rfl⟩
  running_supervisor := by
    intro other info log task hentry
    rw [hvms] at hentry
    split at hentry
    · cases left <;> cases hentry
    · rename_i hne
      exact hsupervisors.mpr ⟨h.running_supervisor hentry, hne⟩
  addressed := by
    intro other info log task hentry
    rw [hvms] at hentry
    split at hentry
    · cases left <;> cases hentry
    · exact h.addressed hentry
  launch_unique := fun hfirst hsecond =>
    h.launch_unique (hlaunches.mp hfirst).1 (hlaunches.mp hsecond).1
  launch_lt := fun hlaunch => hnext ▸ h.launch_lt (hlaunches.mp hlaunch).1
  supervisor_lt := fun hsup => hnext ▸ h.supervisor_lt (hsupervisors.mp hsup).1

/-- A launch ends, and leaves an Ended VM or nothing under its name. -/
theorem endLaunch (hlaunch : agent.launches[task]? = some launch)
    (left : Option Replaced) (hvms : ∀ other : Str, vms[other]? =
      if other = launch.name then left.map fun old => .ended old.info old.log
      else agent.vms[other]?) : Owned (agent.endLaunch task vms) := by
  refine h.release left hvms (fun {other found} => ⟨fun hother => ?_, ?_⟩)
    (fun {other owner} => ⟨fun hsup => ⟨hsup, h.supervisor_ne_launch hlaunch hsup⟩, And.left⟩) rfl
  · obtain ⟨hne, hother⟩ := of_lookup_erase hother
    exact ⟨hother, fun heq => hne (h.launch_unique hother hlaunch heq)⟩
  · rintro ⟨hother, hname⟩
    refine (lookup_erase ..).trans ((if_neg ?_).trans hother)
    rintro rfl
    cases hlaunch.symm.trans hother
    exact hname rfl

/-- A supervisor ends, and leaves an Ended VM under its name. -/
theorem endSupervisor (hsup : agent.supervisors[task]? = some name)
    (left : Replaced) (hvms : ∀ other : Str, vms[other]? =
      if other = name then some (.ended left.info left.log) else agent.vms[other]?) :
    Owned { agent with vms, supervisors := agent.supervisors.erase task } := by
  refine h.release (some left) hvms
    (fun {other found} => ⟨fun hlaunch => ⟨hlaunch, (h.supervisor_ne_launch hlaunch hsup).symm⟩,
      And.left⟩) (fun {other owner} => ⟨fun hother => ?_, ?_⟩) rfl
  · obtain ⟨hne, hother⟩ := of_lookup_erase hother
    exact ⟨hother, fun heq => hne (h.supervisor_unique (heq ▸ hother) hsup)⟩
  · rintro ⟨hother, hname⟩
    refine (lookup_erase ..).trans ((if_neg ?_).trans hother)
    rintro rfl
    cases hsup.symm.trans hother
    exact hname rfl

/-- History under a name no task works for changes: it is written or removed. -/
theorem setHistory (hidle : Idle agent name) (left : Option Replaced)
    (hvms : ∀ other : Str, vms[other]? =
      if other = name then left.map fun old => .ended old.info old.log else agent.vms[other]?) :
    Owned { agent with vms } :=
  h.release left hvms
    (fun {_ _} => ⟨fun hlaunch => ⟨hlaunch, h.name_ne_of_idle_launch hidle hlaunch⟩, And.left⟩)
    (fun {_ _} => ⟨fun hsup => ⟨hsup, h.name_ne_of_idle_supervisor hidle hsup⟩, And.left⟩) rfl

theorem adopt {info} (hidle : Idle agent info.name)
    (haddress : info.vmAddress.isSome) (log : Str) : Owned (agent.adopt info log) where
  launch_entry := by
    intro task launch hlaunch
    exact (lookup_insert_of_ne _ (h.name_ne_of_idle_launch hidle hlaunch)).trans
      (h.launch_entry hlaunch)
  supervisor_entry := by
    intro task name hsup
    obtain ⟨rfl, rfl⟩ | ⟨-, hsup⟩ := of_lookup_insert hsup
    · exact ⟨info, log, by simp [Agent.adopt, startSupervising], rfl⟩
    · rw [Agent.adopt, startSupervising,
        lookup_insert_of_ne _ (h.name_ne_of_idle_supervisor hidle hsup)]
      exact h.supervisor_entry hsup
  starting_launch := by
    intro name vmAddress log' route hentry
    obtain ⟨-, ⟨⟩⟩ | ⟨-, hentry⟩ := of_lookup_insert hentry
    exact h.starting_launch hentry
  running_supervisor := by
    intro name info' log' task hentry
    obtain ⟨rfl, ⟨⟩⟩ | ⟨-, hentry⟩ := of_lookup_insert hentry
    · simp [Agent.adopt]
    · have hsup := h.running_supervisor hentry
      exact (lookup_insert_of_ne _ (h.supervisor_lt hsup).ne).trans hsup
  addressed := by
    intro name info' log' task hentry
    obtain ⟨-, ⟨⟩⟩ | ⟨-, hentry⟩ := of_lookup_insert hentry
    · exact haddress
    · exact h.addressed hentry
  launch_unique := h.launch_unique
  launch_lt := fun hlaunch => (h.launch_lt hlaunch).trans (Nat.lt_succ_self _)
  supervisor_lt := fun hfound => forall_insert (Nat.lt_succ_self _)
    (fun hsup => (h.supervisor_lt hsup).trans (Nat.lt_succ_self _)) hfound

end

end Owned

/-! ## Requests and tasks -/

theorem toOption_eq_some {ε α} {x : Except ε α} {a} (h : x.toOption = some a) : x = .ok a := by
  cases x with
  | error e => cases h
  | ok b => simpa [Except.toOption] using h

theorem idle_of_ended {info log}
    (h : agent.vms[name]? = some (.ended info log)) : Idle agent name := by
  intro entry hentry
  rw [h] at hentry
  cases hentry
  exact ⟨info, log, rfl⟩

theorem idle_of_absent (h : agent.vms[name]? = none) : Idle agent name := by
  intro entry hentry
  rw [h] at hentry
  cases hentry

/-- What an agent has seen when it reserves a launch's name. An Ended VM under it is set
aside, and one that is parked only by a wake. -/
structure Agent.MayReserve (subnet : Subnet) (agent : Agent) (launch : Launch) : Prop where
  not_shuttingDown : agent.shuttingDown = false
  free : freeVmAddress subnet agent.vms = .ok launch.vmAddress
  entry : agent.vms[launch.name]? = launch.setAside.map fun old => .ended old.info old.log
  parked : ∀ old, launch.kind = .wake old → isParked old.info
  unparked : ∀ old, launch.kind = .start (some old) → isParked old.info = false

theorem Agent.MayReserve.idle (h : agent.MayReserve subnet launch) : Idle agent launch.name := by
  intro entry hentry
  obtain ⟨old, -, rfl⟩ := map_eq_some_iff.mp (h.entry.symm.trans hentry)
  exact ⟨old.info, old.log, rfl⟩

theorem RunReserved.reserves {run log reserved}
    (h : RunReserved subnet agent.shuttingDown agent.machines agent.vms run log reserved) :
    agent.MayReserve subnet (reserved.launch run log) := by
  obtain ⟨replaced, vmAddress, vms⟩ := reserved
  have hreplaced := replacedVm_eq_ok h.replaces
  refine ⟨h.not_shuttingDown, h.free, ?_, nofun, fun old hold => ?_⟩
  · rcases hreplaced with ⟨hnone, rfl⟩ | ⟨info, log, hentry, -, rfl⟩
    · exact hnone
    · exact hentry
  · cases hold
    rcases hreplaced with ⟨-, ⟨⟩⟩ | ⟨info, log, -, hparked, ⟨⟩⟩
    exact hparked

theorem WakeReserved.reserves {isDir reserved}
    (h : WakeReserved subnet agent.shuttingDown isDir agent.vms name reserved) :
    agent.MayReserve subnet (reserved.launch name) := by
  obtain ⟨hentry, hparked, -⟩ := parkedVm_eq_ok h.parked
  refine ⟨h.not_shuttingDown, h.free, hentry, fun old hold => ?_, nofun⟩
  cases hold
  exact hparked

/-- A start that was given its name: what it reserved, and its task. -/
theorem runVm_eq_ok {run log} (h : agent.runVm subnet run log = .ok next) :
    ∃ reserved, RunReserved subnet agent.shuttingDown agent.machines agent.vms run log reserved ∧
      next = agent.reserve (reserved.launch run log) := by
  obtain ⟨_, -, h⟩ := except_bind_eq_ok.mp h
  obtain ⟨reserved, hreserved, h⟩ := except_bind_eq_ok.mp h
  have hspec := reserveRun_eq_ok hreserved
  cases h
  rw [hspec.vms_eq]
  exact ⟨reserved, hspec, rfl⟩

theorem wakeVm_eq_ok {isDir} (h : agent.wakeVm subnet name isDir = .ok next) :
    ∃ reserved, WakeReserved subnet agent.shuttingDown isDir agent.vms name reserved ∧
      next = agent.reserve (reserved.launch name) := by
  obtain ⟨reserved, hreserved, h⟩ := except_bind_eq_ok.mp h
  have hspec := reserveWake_eq_ok hreserved
  cases h
  rw [hspec.vms_eq]
  exact ⟨reserved, hspec, rfl⟩

/-- What a launch that brings up no VM leaves under its name: what it had set aside, or,
of a VM that woke and can't be recorded, its end. -/
inductive LeavesBehind (launch : Launch) : Option Replaced → Prop
  | setAside : LeavesBehind launch launch.setAside
  | lost {parked} (hkind : launch.kind = .wake parked) (ended : Ended) :
      LeavesBehind launch (some ⟨endedInfo parked.info ended, parked.log⟩)

/-- An agent in which the launch `task` has ended without a VM. -/
structure LaunchEnded (agent : Agent) (task : Nat) (next : Agent) (launch : Launch)
    (left : Option Replaced) : Prop where
  launch_eq : agent.launches[task]? = some launch
  leaves : LeavesBehind launch left
  vms_eq : ∀ other : Str, next.vms[other]? =
    if other = launch.name then left.map fun old => .ended old.info old.log
    else agent.vms[other]?
  next_eq : next = agent.endLaunch task next.vms

theorem startFailed_eq_some (h : agent.startFailed task = some next) :
    ∃ launch, LaunchEnded agent task next launch launch.setAside := by
  unfold Agent.startFailed at h
  split at h
  · rename_i name vmAddress log memMib vcpus route replaced hlaunch
    cases h
    exact ⟨_, hlaunch, .setAside, lookup_forgetStart agent.vms name replaced, rfl⟩
  · cases h

theorem wakeFailed_eq_some (h : agent.wakeFailed task = some next) :
    ∃ launch, LaunchEnded agent task next launch launch.setAside := by
  unfold Agent.wakeFailed at h
  split at h
  · rename_i name vmAddress log memMib vcpus route parked hlaunch
    cases h
    exact ⟨_, hlaunch, .setAside, lookup_insert agent.vms name _, rfl⟩
  · cases h

theorem wakeLost_eq_some {ended} (h : agent.wakeLost task ended = some next) :
    ∃ launch parked, launch.kind = .wake parked ∧
      LaunchEnded agent task next launch (some ⟨endedInfo parked.info ended, parked.log⟩) := by
  unfold Agent.wakeLost at h
  split at h
  · rename_i name vmAddress log memMib vcpus route parked hlaunch
    cases h
    exact ⟨_, parked, rfl, hlaunch, .lost rfl ended, lookup_insert agent.vms name _, rfl⟩
  · cases h

/-- Handing a VM over is forgetting its launch and then taking the VM back. -/
theorem launched_eq_some {startedAt} (h : agent.launched task startedAt = some next) :
    ∃ launch, agent.launches[task]? = some launch ∧
      next = (agent.endLaunch task (agent.vms.erase launch.name)).adopt
        (launch.info startedAt) launch.log := by
  obtain ⟨launch, hlaunch, rfl⟩ := map_eq_some_iff.mp h
  refine ⟨launch, hlaunch, ?_⟩
  have hvms (entry : Entry) : (agent.vms.erase launch.name).insert launch.name entry =
      agent.vms.insert launch.name entry := by
    apply ExtTreeMap.ext_getElem?
    intro other
    simp only [lookup_insert, lookup_erase]
    split <;> rfl
  simp [Agent.adopt, Agent.endLaunch, startSupervising, Launch.info, hvms]

theorem vmEnded_eq_some {ended} (h : agent.vmEnded task ended = some next) :
    ∃ name, agent.supervisors[task]? = some name ∧
      next = { agent with
        vms := recordEnd agent.vms name ended
        supervisors := agent.supervisors.erase task } := by
  obtain ⟨name, hsup, rfl⟩ := map_eq_some_iff.mp h
  exact ⟨name, hsup, rfl⟩

theorem remove_eq_ok (h : agent.remove name = .ok next) :
    (∃ info log, agent.vms[name]? = some (.ended info log)) ∧
      next = { agent with vms := agent.vms.erase name } := by
  obtain ⟨vms, hvms, h⟩ := except_bind_eq_ok.mp h
  obtain ⟨hended, rfl⟩ := removeVm_eq_ok hvms
  cases h
  exact ⟨hended, rfl⟩

/-- A step that only changes the Machines' Apps, or nothing. -/
def SameTasks (agent next : Agent) : Prop :=
  next.vms = agent.vms ∧ next.launches = agent.launches ∧ next.supervisors = agent.supervisors ∧
    next.nextTask = agent.nextTask

theorem Owned.of_sameTasks (h : Owned agent) (hsame : SameTasks agent next) : Owned next := by
  obtain ⟨vms, machines, down, launches, supervisors, nextTask⟩ := next
  obtain ⟨rfl, rfl, rfl, rfl⟩ := hsame
  exact { h with }

/-- What a step can do to the table and the tasks. -/
inductive AgentMove (subnet : Subnet) (agent : Agent) : Agent → Prop
  | reserved {launch : Launch} (hreserves : agent.MayReserve subnet launch) :
      AgentMove subnet agent (agent.reserve launch)
  | launchEnded {task next launch left}
      (hend : LaunchEnded agent task next launch left) : AgentMove subnet agent next
  | launched {task : Nat} {launch} (startedAt : Nat)
      (hlaunch : agent.launches[task]? = some launch) :
      AgentMove subnet agent ((agent.endLaunch task (agent.vms.erase launch.name)).adopt
        (launch.info startedAt) launch.log)
  | vmEnded {task : Nat} {name} (ended : Ended) (hsup : agent.supervisors[task]? = some name) :
      AgentMove subnet agent { agent with
        vms := recordEnd agent.vms name ended
        supervisors := agent.supervisors.erase task }
  | removed {name info log} (hended : agent.vms[name]? = some (.ended info log)) :
      AgentMove subnet agent { agent with vms := agent.vms.erase name }
  | same {next : Agent} (hsame : SameTasks agent next) : AgentMove subnet agent next

theorem sameTasks_of_onMachines (hevent : event.onMachines)
    (h : agent.step subnet event = some next) :
    SameTasks agent next ∧ next.shuttingDown = agent.shuttingDown := by
  cases event with
  | runOnMachine request =>
    obtain ⟨_, -, h⟩ := except_bind_eq_ok.mp (toOption_eq_some h)
    obtain ⟨machines, -, h⟩ := except_bind_eq_ok.mp h
    cases h
    exact ⟨⟨rfl, rfl, rfl, rfl⟩, rfl⟩
  | removeApp name =>
    obtain ⟨machines, -, rfl⟩ := map_eq_some_iff.mp h
    exact ⟨⟨rfl, rfl, rfl, rfl⟩, rfl⟩
  | addMachine machine =>
    simp only [Agent.step, Agent.addMachine] at h
    split at h
    · cases h
    · cases h
      exact ⟨⟨rfl, rfl, rfl, rfl⟩, rfl⟩
  | removeMachine machine =>
    simp only [Agent.step, Agent.removeMachine] at h
    split at h
    · split at h
      · cases h
        exact ⟨⟨rfl, rfl, rfl, rfl⟩, rfl⟩
      · cases h
    · cases h
  | _ => cases hevent

theorem move_of_step (h : agent.step subnet event = some next) : AgentMove subnet agent next := by
  cases event with
  | runVm run log =>
    obtain ⟨reserved, hspec, rfl⟩ := runVm_eq_ok (toOption_eq_some h)
    exact .reserved hspec.reserves
  | wakeVm name isDir =>
    obtain ⟨reserved, hspec, rfl⟩ := wakeVm_eq_ok (toOption_eq_some h)
    exact .reserved hspec.reserves
  | stopVm | parkVm =>
    simp only [Agent.step] at h
    split at h
    · cases h
      exact .same ⟨rfl, rfl, rfl, rfl⟩
    · cases h
  | startFailed task =>
    obtain ⟨launch, hend⟩ := startFailed_eq_some h
    exact .launchEnded hend
  | wakeFailed task =>
    obtain ⟨launch, hend⟩ := wakeFailed_eq_some h
    exact .launchEnded hend
  | wakeLost task time =>
    obtain ⟨launch, parked, -, hend⟩ := wakeLost_eq_some h
    exact .launchEnded hend
  | launched task startedAt =>
    obtain ⟨launch, hlaunch, rfl⟩ := launched_eq_some h
    exact .launched startedAt hlaunch
  | vmEnded task ended =>
    obtain ⟨name, hsup, rfl⟩ := vmEnded_eq_some h
    exact .vmEnded ended hsup
  | remove name =>
    obtain ⟨⟨info, log, hended⟩, rfl⟩ := remove_eq_ok (toOption_eq_some h)
    exact .removed hended
  | runOnMachine | removeApp | addMachine | removeMachine =>
    exact .same (sameTasks_of_onMachines rfl h).1
  | shutdown =>
    cases h
    exact .same ⟨rfl, rfl, rfl, rfl⟩

/-! ## Every reachable agent -/

/-- Once its launch has ended without a trace, a name is absent. -/
theorem idle_endLaunch_erase (task : Nat) (name : Str) :
    Idle (agent.endLaunch task (agent.vms.erase name)) name := by
  apply idle_of_absent
  simp [Agent.endLaunch]

/-- Handing a VM over changes its own entry alone. -/
theorem lookup_launched (agent : Agent) (task : Nat) (launch : Launch) (startedAt : Nat)
    (name : Str) : ((agent.endLaunch task (agent.vms.erase launch.name)).adopt
      (launch.info startedAt) launch.log).vms[name]? =
        if name = launch.name then
          some (.running (launch.info startedAt) launch.log agent.nextTask)
        else agent.vms[name]? := by
  simp only [Agent.adopt, startSupervising, Agent.endLaunch, Launch.info, lookup_insert,
    lookup_erase]
  split <;> rfl

theorem Owned.of_move (h : Owned agent) (hmove : AgentMove subnet agent next) : Owned next := by
  cases hmove with
  | reserved hreserves => exact h.reserve hreserves.idle
  | launchEnded hend =>
    rw [hend.next_eq]
    exact h.endLaunch hend.launch_eq _ hend.vms_eq
  | launched startedAt hlaunch =>
    have hended : Owned (agent.endLaunch _ (agent.vms.erase _)) :=
      h.endLaunch hlaunch none (lookup_erase agent.vms _)
    exact hended.adopt (idle_endLaunch_erase _ _) rfl _
  | vmEnded ended hsup =>
    obtain ⟨info, log, hentry, -⟩ := h.supervisor_entry hsup
    exact h.endSupervisor hsup ⟨endedInfo info ended, log⟩ (lookup_recordEnd hentry ended)
  | removed hended =>
    exact h.setHistory (idle_of_ended hended) none (lookup_erase agent.vms _)
  | same hsame => exact h.of_sameTasks hsame

theorem Owned.of_step (h : Owned agent) (hstep : agent.step subnet event = some next) :
    Owned next :=
  h.of_move (move_of_step hstep)

/-- Taking one record back, whose name is not in the table yet. -/
theorem Owned.restoreEnded (h : Owned agent) (info : VmInfo) (hidle : Idle agent info.name)
    (log : Str) : Owned (agent.restoreEnded info log) :=
  h.setHistory hidle (some ⟨info, log⟩) (lookup_insert agent.vms info.name _)

/-- A record whose VM still runs says where. -/
theorem Record.vmAddress_of_alive {isRunning} {record : Record} {vmAddress process}
    (h : record.verdict isRunning = .alive vmAddress process) :
    record.info.vmAddress = some vmAddress := by
  simp only [Record.verdict] at h
  grind

theorem Owned.reconcile {isRunning} {now : Nat} {records} (h : Owned agent)
    (hnodup : (records.map fun record => record.info.name).Nodup)
    (habsent : ∀ record ∈ records, agent.vms[record.info.name]? = none)
    (hrec : agent.reconcile isRunning now records = some next) : Owned next := by
  induction records generalizing agent with
  | nil =>
    cases hrec
    exact h
  | cons record rest ih =>
    have hidle : Idle agent record.info.name := idle_of_absent (habsent record mem_cons_self)
    rw [map_cons, nodup_cons] at hnodup
    have hrest (entry : Entry) : ∀ other ∈ rest,
        (agent.vms.insert record.info.name entry)[other.info.name]? = none := by
      intro other hother
      have hne : other.info.name ≠ record.info.name := by
        intro heq
        exact hnodup.1 (heq ▸ List.mem_map_of_mem hother)
      rw [lookup_insert, if_neg hne]
      exact habsent other (mem_cons_of_mem record hother)
    simp only [Agent.reconcile] at hrec
    split at hrec
    · exact ih (h.restoreEnded record.info hidle _) hnodup.2 (hrest _) hrec
    · rename_i hverdict
      have haddress := Record.vmAddress_of_alive hverdict
      exact ih (h.adopt hidle (by simp [haddress]) _) hnodup.2 (hrest _) hrec
    · exact ih (h.restoreEnded (endedInfo record.info ⟨now, .agentDown⟩) hidle _) hnodup.2
        (hrest _) hrec
    · cases hrec

/-- An agent that has taken its records back, and its Machines. -/
theorem Owned.start {isRunning now} {rows : Rows}
    {start} (hstart : Agent.empty.reconcile isRunning now rows.load = some start)
    (machines : Machines) : Owned { start with machines } := by
  have hready : Owned start :=
    owned_empty.reconcile (nodup_load rows) (by simp [Agent.empty]) hstart
  exact hready.of_sameTasks ⟨rfl, rfl, rfl, rfl⟩

/-- An agent without records starts with nothing. -/
theorem reconcile_nothing : Agent.empty.reconcile (fun _ _ => false) 0 (∅ : Rows).load =
    some Agent.empty := rfl

/-- The name's entry says who works for it: one launch, one supervisor, or nobody. -/
structure OneOwner (agent : Agent) (name : Str) : Prop where
  starting : (∃ vmAddress log route,
      agent.vms[name]? = some (.starting vmAddress log route)) ↔
    ∃! task : Nat, ∃ launch : Launch, agent.launches[task]? = some launch ∧ launch.name = name
  running : (∃ info log task, agent.vms[name]? = some (.running info log task)) ↔
    ∃! task : Nat, agent.supervisors[task]? = some name
  idle : (agent.vms[name]? = none ∨ ∃ info log, agent.vms[name]? = some (.ended info log)) ↔
    (∀ (task : Nat) (launch : Launch), agent.launches[task]? = some launch →
      launch.name ≠ name) ∧ ∀ task : Nat, agent.supervisors[task]? ≠ some name

theorem Owned.oneOwner (h : Owned agent) (name : Str) : OneOwner agent name where
  starting := by
    constructor
    · rintro ⟨vmAddress, log, route, hentry⟩
      obtain ⟨task, launch, hlaunch, hname⟩ := h.starting_launch hentry
      refine ⟨task, ⟨launch, hlaunch, hname⟩, ?_⟩
      rintro other ⟨launch', hother, hname'⟩
      exact h.launch_unique hother hlaunch (hname'.trans hname.symm)
    · rintro ⟨task, ⟨launch, hlaunch, rfl⟩, -⟩
      exact ⟨_, _, _, h.launch_entry hlaunch⟩
  running := by
    constructor
    · rintro ⟨info, log, task, hentry⟩
      have hsup := h.running_supervisor hentry
      exact ⟨task, hsup, fun other hother => h.supervisor_unique hother hsup⟩
    · rintro ⟨task, hsup, -⟩
      obtain ⟨info, log, hentry, -⟩ := h.supervisor_entry hsup
      exact ⟨info, log, task, hentry⟩
  idle := by
    constructor
    · intro hentry
      have hidle : Idle agent name := by
        rcases hentry with hnone | ⟨info, log, hended⟩
        · exact idle_of_absent hnone
        · exact idle_of_ended hended
      exact ⟨fun task launch hlaunch => h.name_ne_of_idle_launch hidle hlaunch,
        fun task hsup => h.name_ne_of_idle_supervisor hidle hsup rfl⟩
    · rintro ⟨hlaunches, hsupervisors⟩
      cases hentry : agent.vms[name]? with
      | none => exact .inl rfl
      | some entry =>
        cases entry with
        | starting vmAddress log route =>
          obtain ⟨task, launch, hlaunch, hname⟩ := h.starting_launch hentry
          exact absurd hname (hlaunches task launch hlaunch)
        | running info log task =>
          exact absurd (h.running_supervisor hentry) (hsupervisors task)
        | ended info log => exact .inr ⟨info, log, rfl⟩

/-- The task whose end an event is. -/
def AgentEvent.endsTask : AgentEvent → Option Nat
  | .startFailed task | .wakeFailed task | .wakeLost task _ | .launched task _
  | .vmEnded task _ => some task
  | _ => none

/-- What a task finds under its name is the entry of its own VM. -/
def Agent.OwnEntry (agent : Agent) (task : Nat) (name : Str) : Prop :=
  (∃ launch : Launch, agent.launches[task]? = some launch ∧ launch.name = name ∧
    agent.vms[name]? = some (.starting launch.vmAddress launch.log launch.route)) ∨
  ∃ info log, agent.supervisors[task]? = some name ∧
    agent.vms[name]? = some (.running info log task) ∧ info.name = name

/-- A task that ends updates its own name's entry alone. -/
theorem Owned.endsTask_frame (h : Owned agent) (hstep : agent.step subnet event = some next)
    (htask : event.endsTask = some task) :
    ∃ name, agent.OwnEntry task name ∧
      ∀ other : Str, other ≠ name → next.vms[other]? = agent.vms[other]? := by
  have hlaunchEnded {launch} {left}
      (hend : LaunchEnded agent task next launch left) : ∃ name, agent.OwnEntry task name ∧
        ∀ other : Str, other ≠ name → next.vms[other]? = agent.vms[other]? := by
    refine ⟨launch.name, .inl ⟨launch, hend.launch_eq, rfl, h.launch_entry hend.launch_eq⟩, ?_⟩
    intro other hne
    rw [hend.vms_eq, if_neg hne]
  cases event with
  | startFailed failed =>
    cases htask
    obtain ⟨launch, hend⟩ := startFailed_eq_some hstep
    exact hlaunchEnded hend
  | wakeFailed failed =>
    cases htask
    obtain ⟨launch, hend⟩ := wakeFailed_eq_some hstep
    exact hlaunchEnded hend
  | wakeLost failed time =>
    cases htask
    obtain ⟨launch, parked, -, hend⟩ := wakeLost_eq_some hstep
    exact hlaunchEnded hend
  | launched done startedAt =>
    cases htask
    obtain ⟨launch, hlaunch, rfl⟩ := launched_eq_some hstep
    refine ⟨launch.name, .inl ⟨launch, hlaunch, rfl, h.launch_entry hlaunch⟩, ?_⟩
    intro other hne
    rw [lookup_launched, if_neg hne]
  | vmEnded done ended =>
    cases htask
    obtain ⟨name, hsup, rfl⟩ := vmEnded_eq_some hstep
    obtain ⟨info, log, hentry, hname⟩ := h.supervisor_entry hsup
    refine ⟨name, .inr ⟨info, log, hsup, hentry, hname⟩, ?_⟩
    intro other hne
    simp only
    rw [lookup_recordEnd hentry, if_neg hne]
  | _ => cases htask

/-- From whatever records an agent starts, however its requests and tasks are
scheduled: every name has exactly one owner, and a task that ends finds its own VM's
entry and touches no other. -/
theorem one_owner_in_every_run (subnet : Subnet) (isRunning : Ipv4Addr → ProcessId → Bool)
    (now : Nat) (rows : Rows) (machines : Machines) {start agent : Agent}
    {schedule : List AgentEvent}
    (hstart : Agent.empty.reconcile isRunning now rows.load = some start)
    (hrun : run (Agent.step subnet) { start with machines } schedule = some agent) :
    (∀ name, OneOwner agent name) ∧
      ∀ event next task, agent.step subnet event = some next → event.endsTask = some task →
        ∃ name, agent.OwnEntry task name ∧
          ∀ other : Str, other ≠ name → next.vms[other]? = agent.vms[other]? := by
  have howned : Owned agent := run_preserves_all
    (fun hinv hstep => hinv.of_step hstep) (.start hstart machines) hrun
  exact ⟨howned.oneOwner, fun event next task hstep htask => howned.endsTask_frame hstep htask⟩

/-- The theorem applies: a VM starts on an empty Node and is handed over. -/
theorem one_owner_after_start :
    ∃ agent, run (Agent.step .sample) Agent.empty
        [.runVm (.sample "web" none) "web.log", .launched 0 5] = some agent ∧
      ∀ name, OneOwner agent name := by
  obtain ⟨agent, hrun⟩ : ∃ agent, run (Agent.step .sample) Agent.empty
      [.runVm (.sample "web" none) "web.log", .launched 0 5] = some agent :=
    isSome_iff_exists.mp (by decide +kernel)
  exact ⟨agent, hrun,
    (one_owner_in_every_run .sample (fun _ _ => false) 0 ∅ ∅ reconcile_nothing hrun).1⟩

end Cirrocumulus.Node
