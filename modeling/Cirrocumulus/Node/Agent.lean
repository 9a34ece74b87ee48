/-
# The agent's tasks and its table

A start or a wake runs on a task of its own, and so does the supervisor of each VM
that runs. A task meets the table only when it takes the lock: when its name is
reserved for it, and when it is done. This module is the system of these moments,
scheduled in any order, and its main result is that every name has exactly one
owner, which is why the updates a task makes at its end, none of which look at what
they overwrite, always meet the task's own entry.
-/

import Cirrocumulus.Node.Store
import Cirrocumulus.Lib.Runs

namespace Cirrocumulus.Node

open Std (ExtTreeMap)

/-- What a start or a wake puts back when it fails. -/
inductive LaunchKind
  /-- A start, which may reuse an Ended VM's name. -/
  | start (replaced : Option Replaced)
  | wake (parked : Replaced)
  deriving DecidableEq

/-- A start or wake task in progress, with what it reserved. -/
structure Launch where
  name : Str
  vmAddress : Ipv4Addr
  log : Str
  memMib : Nat
  vcpus : Nat
  route : Option Route
  kind : LaunchKind
  deriving DecidableEq

/-- The info of the VM a launch brings up. -/
def Launch.info (launch : Launch) (startedAt : Nat) : VmInfo where
  name := launch.name
  vmAddress := some launch.vmAddress
  memMib := launch.memMib
  vcpus := launch.vcpus
  startedAt
  ended := none
  route := launch.route

/-- The Ended VM that a launch sets aside, and puts back if it fails. -/
def Launch.setAside (launch : Launch) : Option Replaced :=
  match launch.kind with
  | .start replaced => replaced
  | .wake parked => some parked

/-- The agent's tables and tasks. Tasks are numbered as they are spawned. -/
structure Agent where
  vms : Table
  machines : Machines
  shuttingDown : Bool
  launches : ExtTreeMap Nat Launch compare
  /-- Each supervisor's name. -/
  supervisors : ExtTreeMap Nat Str compare
  nextTask : Nat

/-- The agent before it has looked at its records. -/
def Agent.empty : Agent := ⟨∅, ∅, false, ∅, ∅, 0⟩

/-! ## The moments a task or a request holds the lock -/

/-- The launch that a start reserves a name for. -/
def Reserved.launch (reserved : Reserved) (run : RunRequest) (log : Str) : Launch :=
  ⟨run.name, reserved.vmAddress, log, run.memMib, run.vcpus, run.route, .start reserved.replaced⟩

/-- The launch that a wake reserves a name for. -/
def ReservedWake.launch (reserved : ReservedWake) (name : Str) : Launch :=
  let parked := reserved.parked
  ⟨name, reserved.vmAddress, parked.log, parked.info.memMib, parked.info.vcpus,
    parked.info.route, .wake parked⟩

namespace Agent

variable (agent : Agent)

/-- A name was reserved, and the task that works for it is spawned. -/
def spawnLaunch (vms : Table) (launch : Launch) : Agent :=
  { agent with
    vms
    launches := agent.launches.insert agent.nextTask launch
    nextTask := agent.nextTask + 1 }

def runVm (subnet : Subnet) (run : RunRequest) (log : Str) : Except ApiError Agent := do
  let _ ← validateRun run
  let reserved ← reserveRun subnet agent.shuttingDown agent.machines agent.vms run log
  return agent.spawnLaunch reserved.vms (reserved.launch run log)

def wakeVm (subnet : Subnet) (name : Str) (isDir : Bool) : Except ApiError Agent := do
  let reserved ← reserveWake subnet agent.shuttingDown isDir agent.vms name
  return agent.spawnLaunch reserved.vms (reserved.launch name)

/-- A launch is over, and its task has updated the table to `vms`. -/
def endLaunch (task : Nat) (vms : Table) : Agent :=
  { agent with vms, launches := agent.launches.erase task }

/-- A failed start forgets its reservation. -/
def startFailed (task : Nat) : Option Agent :=
  match agent.launches[task]? with
  | some ⟨name, _, _, _, _, _, .start replaced⟩ =>
    some (agent.endLaunch task (forgetStart agent.vms name replaced))
  | _ => none

/-- A failed wake puts the parked VM back. -/
def wakeFailed (task : Nat) : Option Agent :=
  match agent.launches[task]? with
  | some ⟨name, _, _, _, _, _, .wake parked⟩ =>
    some (agent.endLaunch task (putBack agent.vms name parked))
  | _ => none

/-- A VM that woke and could not be recorded ends as forced: its snapshot is lost. -/
def wakeLost (task : Nat) (ended : Ended) : Option Agent :=
  match agent.launches[task]? with
  | some ⟨name, _, _, _, _, _, .wake parked⟩ =>
    some (agent.endLaunch task
      (agent.vms.insert name (.ended (endedInfo parked.info ended) parked.log)))
  | _ => none

/-- A VM that started or woke is handed to a new supervisor. -/
def launched (task : Nat) (startedAt : Nat) : Option Agent :=
  agent.launches[task]?.map fun launch =>
    { agent.endLaunch task
        (startSupervising agent.vms (launch.info startedAt) launch.log agent.nextTask) with
      supervisors := agent.supervisors.insert agent.nextTask launch.name
      nextTask := agent.nextTask + 1 }

/-- A supervisor records its VM's end, and is gone. -/
def vmEnded (task : Nat) (ended : Ended) : Option Agent :=
  agent.supervisors[task]?.map fun name =>
    { agent with
      vms := Node.recordEnd agent.vms name ended
      supervisors := agent.supervisors.erase task }

def remove (name : Str) : Except ApiError Agent := do
  let vms ← removeVm agent.vms name
  return { agent with vms }

def runOnMachine (request : MachineAppRequest) : Except ApiError Agent := do
  let _ ← validateMachineApp request
  let machines ← Node.runOnMachine agent.vms agent.machines request
  return { agent with machines }

def removeApp (name : Str) : Option Agent :=
  (agent.machines.removeApp name).map fun machines => { agent with machines }

/-- A Machine that is connected, with no Apps yet. -/
def addMachine (machine : Str) : Option Agent :=
  if agent.machines.contains machine then none
  else some { agent with machines := agent.machines.insert machine ∅ }

/-- A Machine is removed only when it has no Apps left. -/
def removeMachine (machine : Str) : Option Agent :=
  match agent.machines[machine]? with
  | some apps => if apps.isEmpty then some { agent with machines := agent.machines.erase machine }
      else none
  | none => none

/-- `Agent::shutdown` sets its flag and ends every Machine's `ssh`. -/
def shutdown : Agent := { agent with shuttingDown := true, machines := ∅ }

/-! ## What an agent starts from -/

/-- A VM of an earlier agent is taken back. -/
def adopt (info : VmInfo) (log : Str) : Agent :=
  { agent with
    vms := startSupervising agent.vms info log agent.nextTask
    supervisors := agent.supervisors.insert agent.nextTask info.name
    nextTask := agent.nextTask + 1 }

/-- A record of an Ended VM is taken back. -/
def restoreEnded (info : VmInfo) (log : Str) : Agent :=
  { agent with vms := agent.vms.insert info.name (.ended info log) }

end Agent

/-- What `reconcile` finds a record to be. -/
inductive Verdict
  | ended
  /-- Recorded as running, and its VMM is. -/
  | alive (vmAddress : Ipv4Addr) (process : ProcessId)
  /-- Recorded as running, and its VMM is gone. -/
  | gone
  /-- Recorded as running without saying where, so the agent refuses to start. -/
  | refused
  deriving DecidableEq

def Record.verdict (isRunning : Ipv4Addr → ProcessId → Bool) (record : Record) : Verdict :=
  if record.info.ended.isSome then .ended
  else
    match record.info.vmAddress, record.process with
    | some vmAddress, some process =>
      if isRunning vmAddress process then .alive vmAddress process else .gone
    | _, _ => .refused

/-- The loop of `reconcile` over the records, as far as the table goes. -/
def Agent.reconcile (isRunning : Ipv4Addr → ProcessId → Bool) (now : Nat) :
    Agent → List Record → Option Agent
  | agent, [] => some agent
  | agent, record :: rest =>
    match record.verdict isRunning with
    | .ended => Agent.reconcile isRunning now (agent.restoreEnded record.info record.log) rest
    | .alive _ _ => Agent.reconcile isRunning now (agent.adopt record.info record.log) rest
    | .gone =>
      Agent.reconcile isRunning now
        (agent.restoreEnded (endedInfo record.info ⟨now, .agentDown⟩) record.log) rest
    | .refused => none

/-! ## Schedules -/

/-- One moment at which a request or a task holds the table's lock. -/
inductive AgentEvent
  | runVm (run : RunRequest) (log : Str)
  /-- `isDir` is whether the name has a snapshot directory. -/
  | wakeVm (name : Str) (isDir : Bool)
  /-- A stop or a park reaches a running VM's supervisor, and leaves the table alone. -/
  | stopVm (task : Nat)
  | parkVm (task : Nat)
  | startFailed (task : Nat)
  | wakeFailed (task : Nat)
  | wakeLost (task : Nat) (time : Nat)
  | launched (task : Nat) (startedAt : Nat)
  | vmEnded (task : Nat) (ended : Ended)
  | remove (name : Str)
  | runOnMachine (request : MachineAppRequest)
  | removeApp (name : Str)
  | addMachine (machine : Str)
  | removeMachine (machine : Str)
  | shutdown
  deriving DecidableEq

/-- The requests about Machines and the Apps on them. -/
def AgentEvent.onMachines : AgentEvent → Bool
  | .runOnMachine _ | .removeApp _ | .addMachine _ | .removeMachine _ => true
  | _ => false

/-- Of these, `run_on_machine` takes the table's lock too. -/
def AgentEvent.takesLock : AgentEvent → Bool
  | .runOnMachine _ => true
  | _ => false

/-- A request that is refused changes nothing, so it is no step. -/
def Agent.step (subnet : Subnet) (agent : Agent) : AgentEvent → Option Agent
  | .runVm run log => (agent.runVm subnet run log).toOption
  | .wakeVm name isDir => (agent.wakeVm subnet name isDir).toOption
  | .stopVm task | .parkVm task => if agent.supervisors.contains task then some agent else none
  | .startFailed task => agent.startFailed task
  | .wakeFailed task => agent.wakeFailed task
  | .wakeLost task time => agent.wakeLost task ⟨time, .forced⟩
  | .launched task startedAt => agent.launched task startedAt
  | .vmEnded task ended => agent.vmEnded task ended
  | .remove name => (agent.remove name).toOption
  | .runOnMachine request => (agent.runOnMachine request).toOption
  | .removeApp name => agent.removeApp name
  | .addMachine machine => agent.addMachine machine
  | .removeMachine machine => agent.removeMachine machine
  | .shutdown => some agent.shutdown

end Cirrocumulus.Node
