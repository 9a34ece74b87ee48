/-
# The edge, and the tasks it waits for

The edge resolves a request in a loop: it listens for the next start, wake or park to
settle, looks at the table, and then answers, wakes a parked App, or waits for what it
listens for. A start, a wake and a park each run on a task of their own, which makes a
guard before anything else and drops it as its last act, and dropping it tells every
request that listens.

A park is claimed on the running VM's own traffic, and its task then looks the VM up by
name, sends its supervisor a message, and waits for the answer. A VM's traffic is made
together with its supervisor, so the supervisor's task names both.

What a request is told about a Machine-backed App comes from a table of its own, and is
given with the event. How a snapshot is taken is left out here: a park that a supervisor
has taken up ends in one of three ways.
-/

import Cirrocumulus.Node.Ownership
import Cirrocumulus.Node.Lifecycle

namespace Cirrocumulus.Node

open Std (ExtTreeMap)

/-! ## What the edge does for a hostname -/

/-- Where a request goes. -/
inductive Resolution
  | upstream (address : Ipv4Addr) (port : Nat)
  | notFound
  | unavailable (why : Str)
  deriving DecidableEq

/-- What a held request waits for. -/
inductive Holding
  | start | park
  deriving DecidableEq

/-- What the edge does next for a hostname. -/
inductive Step
  | answer (resolution : Resolution)
  | hold (name : Str) (holding : Holding)
  | wake (name : Str)
  deriving DecidableEq

/-- `EndReason::as_str`. -/
def EndReason.asStr : EndReason → Str
  | .graceful => "graceful"
  | .forced => "forced"
  | .exited => "exited"
  | .crashed => "crashed"
  | .parked => "parked"
  | .agentDown => "died while the agent was down"

/-- `Agent::step_for`. `parking` is the flag of each running VM's traffic, and `onMachine`
what `Machines::resolve` answers. -/
def stepFor (parking : Nat → Bool) (onMachine : Option Resolution) (vms : Table) (host : Str) :
    Step :=
  match onMachine with
  | some resolution => .answer resolution
  | none =>
    match vms.toList.find? fun item => item.2.route.any fun route => route.host == host with
    | none => .answer .notFound
    | some (name, .running info _ task) =>
      if parking task then .hold name .park
      else
        match info.vmAddress, info.route with
        | some address, some route => .answer (.upstream address route.port)
        | _, _ =>
          .answer (.unavailable ("App " ++ quoted name ++
            " has no VM address"))
    | some (name, .starting _ _ _) => .hold name .start
    | some (name, .ended info _) =>
      if isParked info then .wake name
      else
        .answer (.unavailable ("App " ++ quoted name ++ " has ended (" ++
          (info.ended.elim "unknown".toList fun ended => ended.reason.asStr) ++ ")".toList))

/-- `still_starting`. -/
def stillStarting (name : Str) : Str :=
  "App " ++ quoted name ++
    " is still starting after 30s; try again shortly, or see `cirro logs " ++ name ++
    "`"

/-- What a request says that was held until its deadline. -/
def Holding.timedOut (name : Str) : Holding → Str
  | .start => stillStarting name
  | .park => "App " ++ quoted name ++
      " is still being parked after 30s; try again shortly"

/-! ## The parties -/

/-- Where `Edge::resolve` is. -/
inductive RequestPc
  /-- At the head of its loop. -/
  | listen
  /-- Listening, and about to look. -/
  | look
  | hold (name : Str) (holding : Holding)
  /-- About to wake a parked App. -/
  | wake (name : Str)
  /-- Waiting for the wake that the task does. -/
  | await (name : Str) (task : Nat)
  | done (resolution : Resolution)
  deriving DecidableEq

/-- One call of `Edge::resolve`. -/
structure EdgeRequest where
  host : Str
  /-- Set once the request has held for a wake or tried one, with why that failed. -/
  tried : Option (Option Str)
  /-- What it listens for has happened. -/
  notified : Bool
  pc : RequestPc
  deriving DecidableEq

def EdgeRequest.listening (request : EdgeRequest) : Bool :=
  match request.pc with
  | .look | .hold _ _ => true
  | _ => false

/-- Where the task of a start or wake is. -/
inductive GuardPc
  /-- The task has not run yet. Its guard is the first thing it makes. -/
  | spawned
  | working
  /-- It has changed the table for the last time; if it brought up no VM, why. -/
  | finished (failure : Option Str)
  /-- A wake has noted how it went. -/
  | noted (failure : Option Str)
  deriving DecidableEq

/-- The task of a start or wake, until it drops its guard. -/
structure Guard where
  name : Str
  isWake : Bool
  pc : GuardPc
  deriving DecidableEq

/-- How a start or wake ends. -/
inductive Finish
  | launched (startedAt : Nat)
  | failed (error : Str)
  /-- A VM woke and could not be recorded. -/
  | lost (time : Nat) (error : Str)
  deriving DecidableEq

/-- Where a park's task is. -/
inductive ParkPc
  /-- The task has not run yet. Its guard is the first thing it makes. -/
  | spawned
  | lookUp
  | send (target : Nat)
  /-- Sent, and waiting for the answer. -/
  | sent (target : Nat)
  /-- Parked, and waiting for the end to be recorded. -/
  | ending (target : Nat)
  | release
  /-- The claim is released, and the guard is next. -/
  | settle
  deriving DecidableEq

/-- The task of a park, until it drops its guard. -/
structure Park where
  name : Str
  /-- The VM whose traffic it claimed. -/
  traffic : Nat
  pc : ParkPc
  deriving DecidableEq

/-- Whether the task holds its `ParkClaim`. -/
def Park.holds (park : Park) : Bool := park.pc != .settle

/-- A message to a supervisor. -/
inductive Message
  | graceful
  | force
  | park (id : Nat)
  deriving DecidableEq

/-- The park that a message asks for. -/
def Message.asksPark : Message → Option Nat
  | .park id => some id
  | _ => none

/-- Where a supervisor is. -/
inductive WatchPc
  | watch
  /-- Taking a snapshot. -/
  | parking (park : Nat)
  /-- In a graceful stop. -/
  | stopping
  /-- Tearing the VM down, with its channel still open. -/
  | ending
  /-- The channel is closed, and the end is to be recorded. -/
  | closed
  deriving DecidableEq

/-- A running VM: its supervisor and channel, and its traffic's flag. -/
structure Watched where
  pc : WatchPc
  inbox : List Message
  /-- `Traffic::parking`. -/
  parking : Bool
  deriving DecidableEq

/-- A VM that was just handed to its supervisor. -/
def Watched.fresh : Watched := ⟨.watch, [], false⟩

/-- How a park that a supervisor has taken up ends. -/
inductive ParkEnd
  | parked | resumed | lost
  deriving DecidableEq

/-- How many messages a supervisor's channel holds. -/
def channelCapacity : Nat := 4

/-- The agent with its tasks, and the edge. -/
structure Edge where
  agent : Agent
  /-- The starts and wakes that have yet to drop their guards. -/
  guards : ExtTreeMap Nat Guard compare
  /-- How each start or wake went that has finished. -/
  results : ExtTreeMap Nat (Option Str) compare
  /-- Each running VM, by its supervisor. -/
  watches : ExtTreeMap Nat Watched compare
  parks : ExtTreeMap Nat Park compare
  nextPark : Nat
  requests : ExtTreeMap Nat EdgeRequest compare
  nextRequest : Nat
  wakeFailures : ExtTreeMap Str Str compare

/-- The edge of an agent that has taken its records back. -/
def Edge.new (agent : Agent) : Edge :=
  ⟨agent, ∅, ∅, agent.supervisors.map fun _ _ => .fresh, ∅, 0, ∅, 0, ∅⟩

namespace Edge

variable (edge : Edge)

/-! ## Requests -/

def setRequest (id : Nat) (request : EdgeRequest) : Edge :=
  { edge with requests := edge.requests.insert id request }

/-- `Notify::notify_waiters`. -/
def notifyWaiters : Edge :=
  { edge with requests := edge.requests.map fun _ request =>
      { request with notified := request.notified || request.listening } }

/-- A request comes in. -/
def resolve (host : Str) : Edge :=
  { edge.setRequest edge.nextRequest ⟨host, none, false, .listen⟩ with
    nextRequest := edge.nextRequest + 1 }

/-- Whether the VM of a supervisor is being parked. -/
def isParking (task : Nat) : Bool := edge.watches[task]?.any (·.parking)

/-- Why an App that was held for, or woken, is still parked. -/
def whyParked (name : Str) (tried : Option Str) : Str :=
  (tried.or edge.wakeFailures[name]?).getD
    ("App " ++ quoted name ++ " failed to wake; `cirro logs " ++ name ++
      "` may say why")

/-- What a request does that has looked. -/
def afterLook (request : EdgeRequest) : Step → EdgeRequest
  | .answer resolution => { request with pc := .done resolution }
  | .hold name holding =>
    { request with
      tried := if holding = .start then some none else request.tried
      pc := .hold name holding }
  | .wake name =>
    match request.tried with
    | some tried => { request with pc := .done (.unavailable (edge.whyParked name tried)) }
    | none => { request with pc := .wake name }

/-- The request listens: from now on it is told of whatever settles. -/
def listen (id : Nat) : Option Edge :=
  edge.requests[id]?.bind fun request =>
    if request.pc = .listen then
      some (edge.setRequest id { request with notified := false, pc := .look })
    else none

def look (id : Nat) (onMachine : Option Resolution) : Option Edge :=
  edge.requests[id]?.bind fun request =>
    if request.pc = .look then
      some (edge.setRequest id (edge.afterLook request
        (stepFor edge.isParking onMachine edge.agent.vms request.host)))
    else none

/-- A held request that was notified looks again. -/
def goOn (id : Nat) : Option Edge :=
  edge.requests[id]?.bind fun request =>
    match request.pc with
    | .hold _ _ =>
      if request.notified then some (edge.setRequest id { request with pc := .listen }) else none
    | _ => none

/-- The deadline has come, and what the request waits for has not. -/
def timeout (id : Nat) : Option Edge :=
  edge.requests[id]?.bind fun request =>
    match request.pc with
    | .hold name holding =>
      if request.notified then none
      else some (edge.setRequest id { request with
        pc := .done (.unavailable (holding.timedOut name)) })
    | .await name _ =>
      some (edge.setRequest id { request with pc := .done (.unavailable (stillStarting name)) })
    | _ => none

/-- The client has gone away. -/
def hangUp (id : Nat) : Edge := { edge with requests := edge.requests.erase id }

/-! ## Starts and wakes -/

/-- A name was reserved, and the task that works for it is spawned. -/
def reserve (agent : Agent) : Option Edge :=
  agent.launches[edge.agent.nextTask]?.map fun launch =>
    { edge with
      agent
      guards := edge.guards.insert edge.agent.nextTask ⟨launch.name, launch.isWake, .spawned⟩ }

/-- A request wakes a parked App. Another's wake may have got there first. -/
def wake (subnet : Subnet) (id : Nat) (isDir : Bool) : Option Edge :=
  edge.requests[id]?.bind fun request =>
    match request.pc with
    | .wake name =>
      match edge.agent.wakeVm subnet name isDir with
      | .ok agent =>
        (edge.reserve agent).map fun next =>
          next.setRequest id { request with pc := .await name edge.agent.nextTask }
      | .error ⟨.conflict, why⟩ =>
        some (edge.setRequest id { request with tried := some (some why), pc := .listen })
      | .error ⟨_, why⟩ =>
        some (edge.setRequest id { request with pc := .done (.unavailable why) })
    | _ => none

/-- The wake a request waits for is over. -/
def woken (id : Nat) : Option Edge :=
  edge.requests[id]?.bind fun request =>
    match request.pc with
    | .await _ task =>
      edge.results[task]?.map fun failure =>
        match failure with
        | none => edge.setRequest id { request with pc := .listen }
        | some why => edge.setRequest id { request with pc := .done (.unavailable why) }
    | _ => none

def setGuard (task : Nat) (guard : Guard) : Edge :=
  { edge with guards := edge.guards.insert task guard }

/-- The task of a start or wake makes its guard. -/
def begin (task : Nat) : Option Edge :=
  edge.guards[task]?.bind fun guard =>
    if guard.pc = .spawned then some (edge.setGuard task { guard with pc := .working }) else none

/-- What the table becomes when a start or wake is done with it. -/
def finished (task : Nat) (isWake : Bool) : Finish → Option Agent
  | .launched startedAt => edge.agent.launched task startedAt
  | .failed _ => if isWake then edge.agent.wakeFailed task else edge.agent.startFailed task
  | .lost time _ => edge.agent.wakeLost task ⟨time, .forced⟩

/-- Why a start or wake brought up no VM. -/
def Guard.failure (guard : Guard) : Finish → Option Str
  | .launched _ => none
  | .failed error =>
    some ("VM " ++ quoted guard.name ++
      (if guard.isWake then " failed to wake, and is still parked: ".toList
        else " failed to start: ".toList) ++ error)
  | .lost _ error =>
    some ("VM " ++ quoted guard.name ++
      " woke, but recording it failed, so it was stopped and its snapshot is lost: " ++ error)

/-- A start or wake changes the table for the last time. A VM that came up has a
supervisor and a traffic of its own. -/
def finish (task : Nat) (how : Finish) : Option Edge :=
  edge.guards[task]?.bind fun guard =>
    if guard.pc = .working then
      (edge.finished task guard.isWake how).map fun agent =>
        { edge.setGuard task { guard with pc := .finished (Guard.failure guard how) } with
          agent
          watches := match how with
            | .launched _ => edge.watches.insert edge.agent.nextTask .fresh
            | _ => edge.watches }
    else none

/-- A wake notes why it failed, for requests that were held for it. -/
def noteWake (task : Nat) : Option Edge :=
  edge.guards[task]?.bind fun guard =>
    match guard.pc with
    | .finished failure =>
      if guard.isWake then
        some { edge.setGuard task { guard with pc := .noted failure } with
          wakeFailures := match failure with
            | none => edge.wakeFailures.erase guard.name
            | some why => edge.wakeFailures.insert guard.name why }
      else none
    | _ => none

/-- What a task's result is once all but its guard is done. -/
def Guard.result (guard : Guard) : Option (Option Str) :=
  match guard.pc with
  | .finished failure => if guard.isWake then none else some failure
  | .noted failure => some failure
  | _ => none

/-- A start or wake drops its guard, and is over. -/
def settle (task : Nat) : Option Edge :=
  edge.guards[task]?.bind fun guard =>
    (Guard.result guard).map fun failure =>
      { edge with
        guards := edge.guards.erase task
        results := edge.results.insert task failure }.notifyWaiters

/-! ## Parks -/

def setPark (id : Nat) (park : Park) : Edge := { edge with parks := edge.parks.insert id park }

def setWatch (task : Nat) (watched : Watched) : Edge :=
  { edge with watches := edge.watches.insert task watched }

/-- `ParkClaim::take`, for a VM that runs under `name` with supervisor `task`. The park's
task is spawned with the claim. -/
def take (name : Str) (task : Nat) : Option Edge :=
  edge.watches[task]?.bind fun watched =>
    if watched.parking then none
    else
      some { (edge.setWatch task { watched with parking := true }).setPark edge.nextPark
          ⟨name, task, .spawned⟩ with
        nextPark := edge.nextPark + 1 }

/-- `claim_park`, under the table's lock. -/
def claimPark (name : Str) : Option Edge :=
  match edge.agent.vms[name]? with
  | some (.running _ _ task) => edge.take name task
  | _ => none

/-- The idle check of one VM, which finds it idle. -/
def claimIdle (name : Str) : Option Edge :=
  match edge.agent.vms[name]? with
  | some (.running info _ task) =>
    if (info.route.bind (·.idleParkSecs)).isSome then edge.take name task else none
  | _ => none

/-- One round of the idle parker, which holds the table's lock for all of it. `idle` are
the VMs that it finds idle. -/
def parkIdleApps (idle : List Str) : Edge :=
  idle.foldl (fun edge name => (edge.claimIdle name).getD edge) edge

/-- A park's task makes its guard. -/
def beginPark (id : Nat) : Option Edge :=
  edge.parks[id]?.bind fun park =>
    if park.pc = .spawned then some (edge.setPark id { park with pc := .lookUp }) else none

/-- `Agent::running`: the park looks its VM up by name. -/
def lookUp (id : Nat) : Option Edge :=
  edge.parks[id]?.bind fun park =>
    if park.pc = .lookUp then
      some (edge.setPark id { park with
        pc := match edge.agent.vms[park.name]? with
          | some (.running _ _ task) => .send task
          | _ => .release })
    else none

/-- The message goes into the supervisor's channel once there is room, unless the channel
is closed. -/
def send (id : Nat) : Option Edge :=
  edge.parks[id]?.bind fun park =>
    match park.pc with
    | .send target =>
      edge.watches[target]?.bind fun watched =>
        if watched.pc = .closed then some (edge.setPark id { park with pc := .release })
        else if watched.inbox.length < channelCapacity then
          some ((edge.setPark id { park with pc := .sent target }).setWatch target
            { watched with inbox := watched.inbox ++ [.park id] })
        else none
    | _ => none

/-- The supervisor closed its channel without an answer. -/
def unanswered (id : Nat) : Option Edge :=
  edge.parks[id]?.bind fun park =>
    match park.pc with
    | .sent target =>
      if edge.watches[target]?.any (·.pc = .closed) then
        some (edge.setPark id { park with pc := .release })
      else none
    | _ => none

/-- The parked VM's end is recorded. -/
def heardEnd (id : Nat) : Option Edge :=
  edge.parks[id]?.bind fun park =>
    match park.pc with
    | .ending target =>
      if edge.agent.supervisors[target]?.isNone then
        some (edge.setPark id { park with pc := .release })
      else none
    | _ => none

/-- `ParkClaim::drop`. -/
def release (id : Nat) : Option Edge :=
  edge.parks[id]?.bind fun park =>
    if park.pc = .release then
      edge.watches[park.traffic]?.map fun watched =>
        (edge.setPark id { park with pc := .settle }).setWatch park.traffic
          { watched with parking := false }
    else none

/-- A park drops its guard, and is over. -/
def settlePark (id : Nat) : Option Edge :=
  edge.parks[id]?.bind fun park =>
    if park.pc = .settle then some { edge with parks := edge.parks.erase id }.notifyWaiters
    else none

/-! ## Supervisors -/

/-- A stop goes into a supervisor's channel. -/
def stop (task : Nat) (force : Bool) : Option Edge :=
  edge.watches[task]?.bind fun watched =>
    if watched.pc ≠ .closed ∧ watched.inbox.length < channelCapacity then
      some (edge.setWatch task { watched with
        inbox := watched.inbox ++ [if force then .force else .graceful] })
    else none

/-- A supervisor answers a park, which then goes on at `pc`. -/
def answer (id : Nat) (pc : ParkPc) : Edge :=
  match edge.parks[id]? with
  | some park => edge.setPark id { park with pc }
  | none => edge

/-- A supervisor takes the next message. A VM that is stopping refuses to be parked. -/
def deliver (task : Nat) : Option Edge :=
  edge.watches[task]?.bind fun watched =>
    match watched.pc, watched.inbox with
    | .watch, .park id :: inbox =>
      some (edge.setWatch task { watched with pc := .parking id, inbox })
    | .watch, .graceful :: inbox =>
      some (edge.setWatch task { watched with pc := .stopping, inbox })
    | .watch, .force :: inbox => some (edge.setWatch task { watched with pc := .ending, inbox })
    | .stopping, .park id :: inbox =>
      some ((edge.answer id .release).setWatch task { watched with inbox })
    | .stopping, .graceful :: inbox => some (edge.setWatch task { watched with inbox })
    | .stopping, .force :: inbox =>
      some (edge.setWatch task { watched with pc := .ending, inbox })
    | _, _ => none

/-- The park a supervisor has taken up ends. -/
def parkEnds (task : Nat) (how : ParkEnd) : Option Edge :=
  edge.watches[task]?.bind fun watched =>
    match watched.pc with
    | .parking id =>
      some (match how with
        | .parked =>
          (edge.answer id (.ending task)).setWatch task { watched with pc := .ending }
        | .resumed => (edge.answer id .release).setWatch task { watched with pc := .watch }
        | .lost => (edge.answer id .release).setWatch task { watched with pc := .ending })
    | _ => none

/-- The VMM has ended, or a graceful stop's deadline has come. -/
def vmEnds (task : Nat) : Option Edge :=
  edge.watches[task]?.bind fun watched =>
    match watched.pc with
    | .watch | .stopping => some (edge.setWatch task { watched with pc := .ending })
    | _ => none

/-- The VM is torn down, and the supervisor's channel goes, with what is in it. -/
def close (task : Nat) : Option Edge :=
  edge.watches[task]?.bind fun watched =>
    if watched.pc = .ending then
      some (edge.setWatch task { watched with pc := .closed, inbox := [] })
    else none

/-- `record_end`. -/
def recordEnd (task : Nat) (ended : Ended) : Option Edge :=
  edge.watches[task]?.bind fun watched =>
    if watched.pc = .closed then
      (edge.agent.vmEnded task ended).map fun agent => { edge with agent }
    else none

end Edge

/-! ## Schedules -/

inductive EdgeEvent
  | resolve (host : Str)
  | listen (request : Nat)
  | look (request : Nat) (onMachine : Option Resolution)
  | goOn (request : Nat)
  | timeout (request : Nat)
  | hangUp (request : Nat)
  | wake (request : Nat) (isDir : Bool)
  | woken (request : Nat)
  | runVm (run : RunRequest) (log : Str)
  | wakeVm (name : Str) (isDir : Bool)
  | begin (task : Nat)
  | finish (task : Nat) (how : Finish)
  | noteWake (task : Nat)
  | settle (task : Nat)
  | claimPark (name : Str)
  | parkIdleApps (idle : List Str)
  | beginPark (park : Nat)
  | lookUp (park : Nat)
  | send (park : Nat)
  | unanswered (park : Nat)
  | heardEnd (park : Nat)
  | release (park : Nat)
  | settlePark (park : Nat)
  | stop (task : Nat) (force : Bool)
  | deliver (task : Nat)
  | parkEnds (task : Nat) (how : ParkEnd)
  | vmEnds (task : Nat)
  | close (task : Nat)
  | recordEnd (task : Nat) (ended : Ended)
  | remove (name : Str)
  | onMachines (event : AgentEvent)
  | shutdown
  deriving DecidableEq

def Edge.step (subnet : Subnet) (edge : Edge) : EdgeEvent → Option Edge
  | .resolve host => some (edge.resolve host)
  | .listen id => edge.listen id
  | .look id onMachine => edge.look id onMachine
  | .goOn id => edge.goOn id
  | .timeout id => edge.timeout id
  | .hangUp id => some (edge.hangUp id)
  | .wake id isDir => edge.wake subnet id isDir
  | .woken id => edge.woken id
  | .runVm run log => (edge.agent.runVm subnet run log).toOption.bind edge.reserve
  | .wakeVm name isDir => (edge.agent.wakeVm subnet name isDir).toOption.bind edge.reserve
  | .begin task => edge.begin task
  | .finish task how => edge.finish task how
  | .noteWake task => edge.noteWake task
  | .settle task => edge.settle task
  | .claimPark name => edge.claimPark name
  | .parkIdleApps idle => some (edge.parkIdleApps idle)
  | .beginPark id => edge.beginPark id
  | .lookUp id => edge.lookUp id
  | .send id => edge.send id
  | .unanswered id => edge.unanswered id
  | .heardEnd id => edge.heardEnd id
  | .release id => edge.release id
  | .settlePark id => edge.settlePark id
  | .stop task force => edge.stop task force
  | .deliver task => edge.deliver task
  | .parkEnds task how => edge.parkEnds task how
  | .vmEnds task => edge.vmEnds task
  | .close task => edge.close task
  | .recordEnd task ended => edge.recordEnd task ended
  | .remove name => (edge.agent.remove name).toOption.map fun agent => { edge with agent }
  | .onMachines event =>
    if event.onMachines then
      (edge.agent.step subnet event).map fun agent => { edge with agent }
    else none
  | .shutdown => some { edge with agent := edge.agent.shutdown }

end Cirrocumulus.Node
