/-
# The Node

An agent at work on its host, over any number of agent lives. The host outlives the
agent: a crash at any point between two effects takes the agent's tables and tasks
and leaves the rest as it is, and the next agent starts from that. The steps of the
system are the requests, the effects of the tasks, VMMs ending by themselves, the
effects of the agent's start, and its end.

The table's lock is held across effects in one place only, while history is removed;
every other step that takes it waits for that.
-/

import Cirrocumulus.Node.Lifecycle

namespace Cirrocumulus.Node

open Std (ExtTreeMap)

/-- Where the agent's start is. -/
inductive Boot
  /-- Removing the snapshots that no parked VM owns, `dirs` left to look at. -/
  | snapshots (dirs : List Str) (records : List Record)
  /-- Taking the records back, `todo` left. -/
  | records (todo : List Record)
  /-- Sweeping the host state of the addresses in `todo`, which nobody holds. -/
  | sweep (todo : List Ipv4Addr)
  | clean (vmAddress : Ipv4Addr) (undo : List Undo) (todo : List Ipv4Addr)
  /-- The socket is open. -/
  | ready
  deriving DecidableEq

/-- What `remove` does next, while it holds the table's lock. -/
inductive RemovePc
  | snapshot | delete | erase
  deriving DecidableEq

/-- An agent at work: its tables, and where each of its tasks is. -/
structure AgentProcess where
  agent : Agent
  launching : ExtTreeMap Nat (LaunchPc × Vm) compare
  supervising : ExtTreeMap Nat (SupervisePc × Vm) compare
  boot : Boot
  removing : Option (Str × RemovePc)

/-- A Node: what outlives its agents, and the agent that runs, if one does. -/
structure System where
  host : Host
  up : Option AgentProcess

/-- A Node on which no agent has run. -/
def System.fresh : System := ⟨.empty, none⟩

/-! ## The agent's start -/

/-- `reconcile`'s first steps: the records are loaded. -/
def AgentProcess.start (host : Host) : AgentProcess where
  agent := .empty
  launching := ∅
  supervising := ∅
  boot := .snapshots host.snapshots.keys host.rows.load
  removing := none

/-- `host_state_owners`. -/
def Host.stateOwners (host : Host) : List (BitVec 16) :=
  (host.objects.toList.filter fun item => item.2.present).filterMap fun item => parseHostId item.1

/-- The addresses that `sweep_host_state` cleans up. -/
def Host.unheld (host : Host) (subnet : Subnet) (vms : Table) : List Ipv4Addr :=
  let held := vms.toList.filterMap fun item => item.2.vmAddress
  (host.stateOwners.filterMap subnet.vmAddressWithLow16).filter fun address =>
    !held.contains address

def Host.setObjects (host : Host) (vmAddress : Ipv4Addr) (objects : Objects) : Host :=
  { host with objects := host.objects.insert (hostId vmAddress) objects }

/-- The effect of removing a directory of snapshots, which may stop part-way. -/
def Host.removeSnapshot (host : Host) (name : Str) (outcome : Outcome) : Host :=
  { host with snapshots := match outcome with
    | .ok => host.snapshots.erase name
    | .partly => host.snapshots.insert name []
    | .failed => host.snapshots }

namespace AgentProcess

variable (up : AgentProcess) (host : Host)

/-- One record is taken back, or stops the agent's start. -/
def restore (record : Record) (todo : List Record) (outcome : Outcome) (now : Nat) : System :=
  match record.verdict host.isRunning with
  | .ended =>
    ⟨host, some { up with
      agent := up.agent.restoreEnded record.info record.log
      boot := .records todo }⟩
  | .alive vmAddress process =>
    ⟨host, some { up with
      agent := up.agent.adopt record.info record.log
      supervising := up.supervising.insert up.agent.nextTask (.watch, .adopt vmAddress process)
      boot := .records todo }⟩
  | .gone =>
    let ended : Ended := ⟨now, .agentDown⟩
    if outcome = .ok then
      ⟨{ host with rows := host.rows.markEnded record.info.name ended },
        some { up with
          agent := up.agent.restoreEnded (endedInfo record.info ended) record.log
          boot := .records todo }⟩
    else ⟨host, none⟩
  | .refused => ⟨host, none⟩

/-- The next effect of the agent's start. -/
def bootStep (subnet : Subnet) (outcome : Outcome) (now : Nat) : Option System :=
  match up.boot with
  | .snapshots (dir :: dirs) records =>
    let owned := records.any fun record => isParked record.info && record.info.name == dir
    some ⟨if owned then host else host.removeSnapshot dir outcome,
      some { up with boot := .snapshots dirs records }⟩
  | .snapshots [] records => some ⟨host, some { up with boot := .records records }⟩
  | .records (record :: todo) => some (up.restore host record todo outcome now)
  | .records [] =>
    some ⟨host, some { up with boot := .sweep (host.unheld subnet up.agent.vms) }⟩
  | .sweep (vmAddress :: todo) =>
    let objects := host.objectsAt (hostId vmAddress)
    some ⟨if outcome = .ok then host.setObjects vmAddress objects.killAll else host,
      some { up with boot := .clean vmAddress undoSteps todo }⟩
  | .clean vmAddress (step :: undo) todo =>
    let objects := host.objectsAt (hostId vmAddress)
    some ⟨if outcome = .ok then host.setObjects vmAddress (objects.undo step) else host,
      some { up with boot := .clean vmAddress undo todo }⟩
  | .clean _ [] todo => some ⟨host, some { up with boot := .sweep todo }⟩
  | .sweep [] | .ready => none

/-- The Machines are restored, and the socket opens. -/
def openSocket (machines : Machines) : Option System :=
  match up.boot with
  | .sweep [] =>
    some ⟨host, some { up with agent := { up.agent with machines }, boot := .ready }⟩
  | _ => none

/-! ## Requests -/

def isReady : Bool := up.boot matches .ready

/-- The table's lock is free. -/
def unlocked : Bool := up.removing.isNone

/-- A name was reserved, and its task begins. -/
def beginLaunch (agent : Agent) : Option System :=
  agent.launches[up.agent.nextTask]?.map fun launch =>
    ⟨host, some { up with
      agent
      launching := up.launching.insert up.agent.nextTask
        (.addNetns, .empty launch.vmAddress) }⟩

def runVm (subnet : Subnet) (run : RunRequest) (log : Str) : Option System :=
  if up.isReady && up.unlocked then
    (up.agent.runVm subnet run log).toOption.bind (up.beginLaunch host)
  else none

def wakeVm (subnet : Subnet) (name : Str) : Option System :=
  if up.isReady && up.unlocked then
    (up.agent.wakeVm subnet name (host.snapshots.contains name)).toOption.bind
      (up.beginLaunch host)
  else none

/-- A stop or a park reaches a VM's supervisor. -/
def stop (task : Nat) (stop : Stop) : Option System :=
  if up.isReady then
    up.supervising[task]?.bind fun (pc, vm) =>
      (pc.take stop).map fun pc =>
        ⟨host, some { up with supervising := up.supervising.insert task (pc, vm) }⟩
  else none

/-- `remove` takes the lock and finds history under the name. -/
def remove (name : Str) : Option System :=
  if up.isReady && up.unlocked then
    match up.agent.vms[name]? with
    | some (.ended _ _) => some ⟨host, some { up with removing := some (name, .snapshot) }⟩
    | _ => none
  else none

/-- The next effect of `remove`. An error releases the lock. -/
def removeStep (outcome : Outcome) : Option System :=
  match up.removing with
  | some (name, .snapshot) =>
    match up.agent.vms[name]? with
    | some (.ended info _) =>
      if isParked info then
        some ⟨host.removeSnapshot name outcome, some { up with
          removing := if outcome = .ok then some (name, .delete) else none }⟩
      else some ⟨host, some { up with removing := some (name, .delete) }⟩
    | _ => none
  | some (name, .delete) =>
    if outcome = .ok then
      some ⟨{ host with rows := host.rows.delete name },
        some { up with removing := some (name, .erase) }⟩
    else some ⟨host, some { up with removing := none }⟩
  | some (name, .erase) =>
    (up.agent.remove name).toOption.map fun agent =>
      ⟨host, some { up with agent, removing := none }⟩
  | none => none

/-- A request about Machines and the Apps on them. -/
def onMachines (subnet : Subnet) (event : AgentEvent) : Option System :=
  if up.isReady && event.onMachines && (up.unlocked || !event.takesLock) then
    (up.agent.step subnet event).map fun agent => ⟨host, some { up with agent }⟩
  else none

/-- `run` hears a signal, and shuts down. -/
def sigterm : Option System :=
  if up.isReady then some ⟨host, some { up with agent := up.agent.shutdown }⟩ else none

/-- `shutdown` has seen no Starting entry, and the process exits. -/
def exit : Option System :=
  if up.agent.shuttingDown && !up.agent.vms.toList.any fun item => item.2.isStarting then
    some ⟨host, none⟩
  else none

/-! ## Tasks -/

/-- A launch meets the table, for the last time. -/
def endLaunch (task : Nat) (agent : Agent) : System :=
  ⟨host, some { up with agent, launching := up.launching.erase task }⟩

/-- The next effect of a launch. -/
def launch (task : Nat) (outcome : Outcome) (now : Nat) : Option System :=
  match up.agent.launches[task]?, up.launching[task]? with
  | some launch, some (pc, vm) =>
    match pc with
    | .handOver startedAt =>
      if up.unlocked then
        (up.agent.launched task startedAt).map fun agent =>
          ⟨host, some { up with
            agent
            launching := up.launching.erase task
            supervising := up.supervising.insert up.agent.nextTask (.watch, vm) }⟩
      else none
    | .giveUp =>
      if up.unlocked then
        match launch.kind with
        | .start _ => (up.agent.startFailed task).map (up.endLaunch host task)
        | .wake _ => (up.agent.wakeFailed task).map (up.endLaunch host task)
      else none
    | .lose ended =>
      if up.unlocked then (up.agent.wakeLost task ended).map (up.endLaunch host task) else none
    | pc =>
      (launch.step host.nextProcess outcome now pc vm
        (host.view launch.name launch.vmAddress)).map fun (pc, vm, view) =>
          ⟨host.put launch.name launch.vmAddress view,
            some { up with launching := up.launching.insert task (pc, vm) }⟩
  | _, _ => none

/-- The next effect of a supervisor. At its end it takes the lock, and marks the VM's row
and entry as ended. -/
def supervise (task : Nat) (outcome : Outcome) (reason : EndReason) (now : Nat) :
    Option System :=
  match up.agent.supervisors[task]?, up.supervising[task]? with
  | some name, some (pc, vm) =>
    match pc with
    | .record reason =>
      let ended : Ended := ⟨now, reason⟩
      if up.unlocked then
        (up.agent.vmEnded task ended).map fun agent =>
          ⟨{ host with rows :=
              if outcome = .ok then host.rows.markEnded name ended else host.rows },
            some { up with agent, supervising := up.supervising.erase task }⟩
      else none
    | pc =>
      (vm.supervise outcome reason pc (host.view name vm.vmAddress)).map
        fun (pc, vm', view) =>
          ⟨host.put name vm.vmAddress view,
            some { up with supervising := up.supervising.insert task (pc, vm') }⟩
  | _, _ => none

end AgentProcess

/-! ## Schedules -/

inductive NodeEvent
  /-- An agent starts, and loads its records. -/
  | boot
  | bootStep (outcome : Outcome) (now : Nat)
  | openSocket (machines : Machines)
  | runVm (run : RunRequest) (log : Str)
  | wakeVm (name : Str)
  | stop (task : Nat) (stop : Stop)
  | remove (name : Str)
  | removeStep (outcome : Outcome)
  | onMachines (event : AgentEvent)
  | sigterm
  | exit
  | launch (task : Nat) (outcome : Outcome) (now : Nat)
  | supervise (task : Nat) (outcome : Outcome) (reason : EndReason) (now : Nat)
  /-- A VMM ends by itself. -/
  | vmmEnds (vmAddress : Ipv4Addr) (process : ProcessId)
  /-- The agent is killed. -/
  | crash

/-- An agent's step. -/
def AgentProcess.step (subnet : Subnet) (host : Host) (up : AgentProcess) :
    NodeEvent → Option System
  | .bootStep outcome now => up.bootStep host subnet outcome now
  | .openSocket machines => up.openSocket host machines
  | .runVm run log => up.runVm host subnet run log
  | .wakeVm name => up.wakeVm host subnet name
  | .stop task stop => up.stop host task stop
  | .remove name => up.remove host name
  | .removeStep outcome => up.removeStep host outcome
  | .onMachines event => up.onMachines host subnet event
  | .sigterm => up.sigterm host
  | .exit => up.exit host
  | .launch task outcome now => up.launch host task outcome now
  | .supervise task outcome reason now => up.supervise host task outcome reason now
  | .crash => some ⟨host, none⟩
  | .boot | .vmmEnds _ _ => none

def System.step (subnet : Subnet) (node : System) : NodeEvent → Option System
  | .vmmEnds vmAddress process =>
    if node.host.isRunning vmAddress process then
      let objects := node.host.objectsAt (hostId vmAddress)
      some { node with host := node.host.setObjects vmAddress (objects.kill (some process)) }
    else none
  | .boot => if node.up.isNone then some ⟨node.host, some (.start node.host)⟩ else none
  | event => node.up.bind fun up => up.step subnet node.host event

/-! ## What a step does -/

/-- How the effect of a step came out, if it has one. -/
def NodeEvent.outcome : NodeEvent → Outcome
  | .bootStep outcome _ | .removeStep outcome | .launch _ outcome _
  | .supervise _ outcome _ _ => outcome
  | _ => .ok

/-- What the launch that takes a step is about to do. -/
def System.launchPc (node : System) : NodeEvent → Option LaunchPc
  | .launch task _ _ => (node.up.bind fun up => up.launching[task]?).map Prod.fst
  | _ => none

/-! ## Runs in which nothing fails -/

namespace NodeEvent

/-- An agent starts, in so many steps. -/
def boots (steps : Nat) : List NodeEvent :=
  .boot :: List.replicate steps (.bootStep .ok 0) ++ [.openSocket ∅]

/-- A VM starts, as task `task`. -/
def starts (name : Str) (task : Nat) : List NodeEvent :=
  .runVm (.sample name none) (name ++ ".log") :: List.replicate 9 (.launch task .ok 0)

/-- A VM is parked by its supervisor, the task `task`. -/
def parks (task : Nat) : List NodeEvent :=
  .stop task .park :: List.replicate 15 (.supervise task .ok .exited 0)

end NodeEvent

end Cirrocumulus.Node
