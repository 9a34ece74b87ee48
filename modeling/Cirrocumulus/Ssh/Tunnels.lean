/-
# Machines and their tunnels

The agent keeps one `ssh` running for each Machine, on a task that runs it again when it
ends. An entry and its task share a link, which the task writes and the edge reads. When
a Machine's Apps change, the task is aborted and a new one is started, with a link of its
own and a port for each App.

A task is told to stop and stops at its next pause, so one that was aborted may go on for
a while, and so may its `ssh`. What a process does is scheduled from outside: it reads the
known hosts, prints lines, and exits. The file of known hosts is rewritten in two steps,
with the entries' lock held over both, and every `ssh` reads it when it likes.

A tunnel's number stands for its task and its link. What the operating system and the
store answer is given with the event.
-/

import Cirrocumulus.Ssh.Target
import Cirrocumulus.Node.Edge

namespace Cirrocumulus.Ssh

open Std (ExtTreeMap)
open Node (ApiError MachineAppRequest Outcome Resolution Route quoted validateName)

/-! ## Records -/

structure MachineRecord where
  name : Str
  ssh : Str
  pinnedKey : Str
  fingerprint : Str
  deriving DecidableEq

structure MachineAppRecord where
  name : Str
  machine : Str
  host : Str
  port : Nat
  deriving DecidableEq

/-- The tables of Machines and of the Apps on them. -/
structure Stored where
  machines : ExtTreeMap Str MachineRecord compare
  apps : ExtTreeMap Str MachineAppRecord compare

/-- An INSERT of a key that is there fails. -/
def insertOutcome {ν : Type} (table : ExtTreeMap Str ν compare) (key : Str) (outcome : Outcome) :
    Outcome :=
  if table.contains key then .failed else outcome

/-- A line of `known_hosts`. -/
def MachineRecord.pin (record : MachineRecord) : Str := record.name ++ ' ' :: record.pinnedKey

/-- The file of known hosts. It is not `whole` from when a rewrite has emptied it until
one has written it. -/
structure KnownHosts where
  lines : List Str
  whole : Bool
  deriving DecidableEq

/-! ## Entries -/

inductive MachineStatus
  | up | unreachable
  deriving DecidableEq

/-- What a Machine's `ssh` last said about the connection. -/
structure Link where
  status : MachineStatus
  lastError : Option Str
  hostKeyChanged : Bool
  deriving DecidableEq

def Link.fresh : Link := ⟨.unreachable, none, false⟩

structure MachineApp where
  route : Route
  localPort : Nat
  deriving DecidableEq

structure Machine where
  record : MachineRecord
  apps : ExtTreeMap Str MachineApp compare
  /-- Its tunnel, for the link and the task. -/
  tunnel : Nat
  /-- The tunnel it was connected with, which tells apart Machines added under one name. -/
  first : Nat

/-! ## Tasks and processes -/

/-- How one `ssh` went. -/
structure SshEnded where
  loggedIn : Bool
  hostKeyChanged : Bool
  last : Str
  deriving DecidableEq

def SshEnded.fresh : SshEnded := ⟨false, false, "ssh exited"⟩

/-- Where `run_tunnel` is. -/
inductive TunnelPc
  | loop
  /-- Reading what its `ssh` prints. -/
  | reading (process : Nat) (ended : SshEnded)
  /-- Waiting for its `ssh` to exit. -/
  | waiting (process : Nat) (ended : SshEnded)
  /-- Its `ssh` is over, or was not started; the link is next. -/
  | noting (process : Option Nat) (ended : SshEnded)
  | sleeping
  /-- The host key changed, and the task returned. -/
  | finished
  /-- Aborted, and gone. -/
  | dropped
  deriving DecidableEq

/-- A task that keeps a Machine's `ssh` running, with its link. -/
structure Tunnel where
  record : MachineRecord
  /-- The tunnel its Machine was connected with. -/
  first : Nat
  /-- Each `-L` option: the local port, and the port it goes to. -/
  forwards : List (Nat × Nat)
  link : Link
  pc : TunnelPc
  wait : Nat
  aborted : Bool
  deriving DecidableEq

/-- An `ssh` process of a tunnel. -/
structure SshProcess where
  tunnel : Nat
  /-- The tunnel its Machine was connected with. -/
  first : Nat
  forwards : List (Nat × Nat)
  /-- What it found in the known hosts each time it read them, and the key it was presented. -/
  reads : List (List Str × Str)
  printed : List Str
  /-- What it printed and nobody has read. -/
  unread : List Str
  running : Bool
  deriving DecidableEq

def retryFirst : Nat := 1

def retryMax : Nat := 30

def hostKeyFailed : Str := "Host key verification failed."

def authenticated : Str := "Authenticated to "

/-- `is_chatter`. -/
def isChatter (line : Str) : Bool :=
  line.all isWhitespace ||
    [authenticated, "Transferred: ", "Bytes per second: "].any (·.isPrefixOf line)

/-- `run_ssh` reads a line. -/
def Tunnel.hear (tunnel : Tunnel) (process : Nat) (ended : SshEnded) (line : Str) : Tunnel :=
  if authenticated.isPrefixOf line then
    { tunnel with
      link := ⟨.up, none, false⟩
      pc := .reading process { ended with loggedIn := true } }
  else if line = hostKeyFailed then
    { tunnel with pc := .reading process { ended with hostKeyChanged := true } }
  else if isChatter line then tunnel
  else { tunnel with pc := .reading process { ended with last := line } }

/-- What a link says about an `ssh` that ended. -/
def SshEnded.why (ended : SshEnded) : Str :=
  if ended.hostKeyChanged then
    ("host key changed: it isn't the one pinned when the Machine was added; if " ++
      "that's expected, `cirro machine rm` it and add it again").toList
  else ended.last

/-- `run_tunnel` notes how its `ssh` went, and goes to sleep or returns. -/
def Tunnel.note (tunnel : Tunnel) (ended : SshEnded) : Tunnel :=
  let tunnel := { tunnel with link := ⟨.unreachable, some ended.why, ended.hostKeyChanged⟩ }
  if ended.hostKeyChanged then { tunnel with pc := .finished }
  else
    { tunnel with
      pc := .sleeping
      wait := if ended.loggedIn then retryFirst else tunnel.wait }

/-! ## The agent's Machines -/

/-- Where the add is that holds the lock of adds. -/
inductive Adding
  | pin (record : MachineRecord)
  | logIn (record : MachineRecord)
  | refused
  | record (record : MachineRecord)
  | connect (record : MachineRecord)
  deriving DecidableEq

/-- Who rewrites the known hosts. -/
inductive Rewrite
  | pin (record : MachineRecord)
  | unpin
  | connect (record : MachineRecord) (apps : List (Str × Route))
  | remove
  deriving DecidableEq

/-- What an add rewrites the known hosts for next. -/
def Adding.rewrite : Adding → Option Rewrite
  | .pin pinned => some (.pin pinned)
  | .refused => some .unpin
  | .connect pinned => some (.connect pinned [])
  | .logIn _ | .record _ => none

/-- The Machine that is pinned besides the entries. -/
def Rewrite.pending : Rewrite → Option MachineRecord
  | .pin record | .connect record _ => some record
  | .unpin | .remove => none

/-- `Machines`, with the tasks and processes it started. -/
structure Machines where
  stored : Stored
  knownHosts : KnownHosts
  entries : ExtTreeMap Str Machine compare
  tunnels : ExtTreeMap Nat Tunnel compare
  nextTunnel : Nat
  processes : ExtTreeMap Nat SshProcess compare
  nextProcess : Nat
  /-- The Machines that `restore` has yet to connect to. -/
  restoring : List (MachineRecord × List (Str × Route))
  adding : Option Adding
  rewriting : Option Rewrite

/-- The Apps that are recorded on a Machine. -/
def Stored.appsOf (stored : Stored) (machine : Str) : List (Str × Route) :=
  (stored.apps.toList.filter fun app => app.2.machine == machine).map fun app =>
    (app.2.name, ⟨app.2.host, app.2.port, none⟩)

/-- `restore` has loaded its records. -/
def Machines.start (stored : Stored) (lines : List Str) : Machines where
  stored
  knownHosts := ⟨lines, true⟩
  entries := ∅
  tunnels := ∅
  nextTunnel := 0
  processes := ∅
  nextProcess := 0
  restoring := stored.machines.toList.map fun item => (item.2, stored.appsOf item.2.name)
  adding := none
  rewriting := none

/-- `free_local_ports`: an error, or as many ports as asked for, which were held at once. -/
def freeLocalPorts (n : Nat) (given : Except Str (List Nat)) : Option (Except Str (List Nat)) :=
  match given with
  | .error e => some (.error e)
  | .ok ports => if ports.length = n ∧ ports.Nodup then some (.ok ports) else none

/-- Each App with its port, in the order of the Apps' names. -/
def assigned (apps : ExtTreeMap Str MachineApp compare) (ports : List Nat) :
    List (Str × MachineApp) :=
  (apps.toList.zip ports).map fun (app, port) => (app.1, { app.2 with localPort := port })

namespace Machines

variable (machines : Machines)

/-- The Apps of each Machine, as the rest of the agent knows them. -/
def apps : Node.Machines :=
  machines.entries.map fun _ machine => machine.apps.map fun _ app => app.route

def setTunnel (id : Nat) (tunnel : Tunnel) : Machines :=
  { machines with tunnels := machines.tunnels.insert id tunnel }

def setProcess (id : Nat) (process : SshProcess) : Machines :=
  { machines with processes := machines.processes.insert id process }

/-- `JoinHandle::abort`. -/
def abort (id : Nat) : Machines :=
  match machines.tunnels[id]? with
  | some tunnel => machines.setTunnel id { tunnel with aborted := true }
  | none => machines

variable (machine : Machine)

/-- The link that a Machine shares with its tunnel. -/
def link : Link := (machines.tunnels[machine.tunnel]?.map (·.link)).getD .fresh

/-- A new tunnel for the Machine. -/
def replaceTunnel (forwards : List (Nat × Nat)) : Machines × Machine :=
  let next := machines.abort machine.tunnel
  ({ next.setTunnel machines.nextTunnel
      ⟨machine.record, machine.first, forwards, .fresh, .loop, retryFirst, false⟩ with
    nextTunnel := machines.nextTunnel + 1 },
    { machine with tunnel := machines.nextTunnel })

/-- `start_tunnel`. A Machine whose host key changed gets ports and no `ssh`. -/
def startTunnel (given : Except Str (List Nat)) : Option (Except Str (Machines × Machine)) :=
  match Target.parse machine.record.ssh with
  | .error e => some (.error e.message)
  | .ok _ =>
    (freeLocalPorts machine.apps.size given).map fun answer =>
      answer.map fun ports =>
        let apps := assigned machine.apps ports
        let machine := { machine with apps := ExtTreeMap.ofList apps }
        if (machines.link machine).hostKeyChanged then (machines, machine)
        else
          machines.replaceTunnel machine
            (apps.map fun app => (app.2.localPort, app.2.route.port))

def setEntry : Machines :=
  { machines with entries := machines.entries.insert machine.record.name machine }

/-- `BTreeMap::insert`. An entry that was under the name is dropped, which aborts its task. -/
def putEntry : Machines :=
  let dropped := match machines.entries[machine.record.name]? with
    | some old => machines.abort old.tunnel
    | none => machines
  dropped.setEntry machine

/-- A Machine's entry, as `start_tunnel` left it or as it is without a new tunnel. -/
def keepEntry : Except Str (Machines × Machine) → Machines
  | .ok (machines, machine) => machines.setEntry machine
  | .error _ => machines.setEntry machine

/-- Whether the entries' lock is free. -/
def unlocked : Bool := machines.rewriting.isNone

/-- Whether `restore` is over, and requests come in. -/
def isOpen : Bool := machines.restoring.isEmpty

/-! ## What the edge asks -/

/-- The answer for an App of a Machine. -/
def answer (app : MachineApp) : Resolution :=
  let link := machines.link machine
  match link.status with
  | .up => .upstream 0x7F000001#32 app.localPort
  | .unreachable =>
    .unavailable ("Machine ".toList ++ quoted machine.record.name ++ " is unreachable" ++
      link.lastError.elim [] fun e => ": ".toList ++ e)

/-- `Machines::resolve`. -/
def resolve (host : Str) : Option Resolution :=
  machines.entries.toList.findSome? fun item =>
    (item.2.apps.toList.find? fun app => app.2.route.host == host).map fun app =>
      machines.answer item.2 app.2

/-! ## Apps -/

def withApps (apps : ExtTreeMap Str MachineApp compare) : Machine :=
  { machine with apps }

/-- `add_app`'s last steps, for an entry that has the App: it is recorded, or goes again. -/
def recordApp (request : MachineAppRequest) (outcome : Outcome)
    (again : Except Str (List Nat)) : Option Machines :=
  let row : MachineAppRecord :=
    ⟨request.name, request.machine, request.route.host, request.route.port⟩
  let outcome := insertOutcome machines.stored.apps request.name outcome
  let stored := { machines.stored with
    apps := outcome.applied (·.insert request.name row) machines.stored.apps }
  let machines := { machines with stored }
  if outcome = .ok then some machines
  else
    let machine := withApps machine (machine.apps.erase request.name)
    (machines.startTunnel machine again).map (machines.keepEntry machine)

/-- `Machines::add_app`, once its checks have passed. -/
def addApp (request : MachineAppRequest) (given : Except Str (List Nat)) (outcome : Outcome)
    (again : Except Str (List Nat)) : Option Machines :=
  match machines.apps.addApp request with
  | .error _ => none
  | .ok _ =>
    machines.entries[request.machine]?.bind fun machine =>
      let added := withApps machine (machine.apps.insert request.name ⟨request.route, 0⟩)
      (machines.startTunnel added given).bind fun started =>
        match started with
        | .error _ => some machines
        | .ok (machines, machine) =>
          (machines.setEntry machine).recordApp machine request outcome again

/-- `Machines::remove_app`. -/
def removeApp (name : Str) (outcome : Outcome) (given : Except Str (List Nat)) :
    Option Machines :=
  (machines.entries.toList.find? fun item => item.2.apps.contains name).bind fun item =>
    let stored := { machines.stored with
      apps := outcome.applied (·.erase name) machines.stored.apps }
    let machines := { machines with stored }
    if outcome = .ok then
      let machine := withApps item.2 (item.2.apps.erase name)
      (machines.startTunnel machine given).map (machines.keepEntry machine)
    else some machines

/-! ## Adding and removing a Machine -/

/-- `add` is let in, and has found the key to pin among those that are `offered`, each with
its fingerprint. -/
def add (name ssh hostKey : Str) (offered : List (Str × Str)) : Option Machines :=
  match validateName "Machine" name, Target.parse ssh with
  | .ok _, .ok target =>
    if machines.adding.isSome || machines.entries.contains name then none
    else
      (offered.find? fun key => key.2 == hostKey).map fun key =>
        { machines with adding := some (.pin ⟨name, target.display, key.1, hostKey⟩) }
  | _, _ => none

/-- `write_known_hosts` opens the file, which empties it. -/
def openKnownHosts (rewrite : Rewrite) : Machines :=
  { machines with knownHosts := ⟨[], false⟩, rewriting := some rewrite }

/-- The add that holds the lock begins its next rewrite, or gives up when it can't. -/
def rewriteForAdd (opens : Bool) : Option Machines :=
  (machines.adding.bind Adding.rewrite).map fun rewrite =>
    if opens then machines.openKnownHosts rewrite else { machines with adding := none }

/-- The add gives up: the agent's own key can't be made, or the client goes away while the
agent logs in. -/
def giveUp : Option Machines :=
  match machines.adding with
  | some (.pin _) | some (.logIn _) => some { machines with adding := none }
  | _ => none

/-- The check that the agent can log in. -/
def logIn (accepted : Bool) : Option Machines :=
  match machines.adding with
  | some (.logIn record) =>
    some { machines with adding := some (if accepted then .record record else .refused) }
  | _ => none

/-- `insert_machine`. -/
def recordMachine (outcome : Outcome) : Option Machines :=
  match machines.adding with
  | some (.record record) =>
    let outcome := insertOutcome machines.stored.machines record.name outcome
    some { machines with
      stored := { machines.stored with
        machines := outcome.applied (·.insert record.name record) machines.stored.machines }
      adding := if outcome = .ok then some (.connect record) else none }
  | _ => none

/-- `remove`, which lets the lock go when it does not rewrite the known hosts. -/
def remove (name : Str) (outcome : Outcome) (opens : Bool) : Option Machines :=
  machines.entries[name]?.bind fun machine =>
    if machines.adding.isSome || !machine.apps.isEmpty then none
    else
      let stored := { machines.stored with
        machines := outcome.applied (·.erase name) machines.stored.machines }
      let machines := { machines with stored }
      if outcome = .ok then
        let next := { machines.abort machine.tunnel with
          entries := machines.entries.erase name }
        some (if opens then next.openKnownHosts .remove else next)
      else some machines

/-- `restore` connects to the next Machine. -/
def restoreNext (opens : Bool) : Option Machines :=
  match machines.restoring with
  | (record, apps) :: rest =>
    some (if opens then machines.openKnownHosts (.connect record apps)
      else { machines with restoring := rest })
  | [] => none

/-- What `write_known_hosts` writes. -/
def pins (pending : Option MachineRecord) : List Str :=
  (machines.entries.toList.map fun item => item.2.record.pin) ++
    (pending.map (·.pin)).toList

/-- Who rewrote the known hosts goes on without a new Machine. -/
def afterRewrite (rewrite : Rewrite) (written : Bool) : Machines :=
  match rewrite with
  | .pin record =>
    { machines with adding := if written then some (.logIn record) else none }
  | .unpin => { machines with adding := none }
  | .connect _ _ =>
    match machines.restoring with
    | _ :: rest => { machines with restoring := rest }
    | [] => { machines with adding := none }
  | .remove => machines

/-- `connect`'s last steps: the tunnel, and the entry. -/
def insertMachine (record : MachineRecord) (apps : List (Str × Route))
    (given : Except Str (List Nat)) : Option Machines :=
  -- A tunnel that does nothing stands in until there is one.
  let machine : Machine :=
    ⟨record, ExtTreeMap.ofList (apps.map fun app => (app.1, MachineApp.mk app.2 0)),
      machines.nextTunnel, machines.nextTunnel⟩
  (machines.startTunnel machine given).map fun started =>
    match started with
    | .ok (machines, machine) => machines.putEntry machine
    | .error _ => machines

/-- `write_known_hosts` writes what it was to write, or fails. -/
def writeKnownHosts (written : Bool) (given : Except Str (List Nat)) : Option Machines :=
  machines.rewriting.bind fun rewrite =>
    let next := { machines with
      knownHosts := if written then ⟨machines.pins rewrite.pending, true⟩ else machines.knownHosts
      rewriting := none }
    match rewrite, written with
    | .connect record apps, true =>
      (next.insertMachine record apps given).map (·.afterRewrite rewrite true)
    | _, _ => some (next.afterRewrite rewrite written)

/-- `disconnect_all`: each entry's task is aborted as the entry goes. -/
def disconnectAll : Machines :=
  { machines with
    entries := ∅
    tunnels := machines.tunnels.map fun id tunnel =>
      if machines.entries.toList.any fun item => item.2.tunnel == id
      then { tunnel with aborted := true } else tunnel }

/-! ## Tasks -/

/-- A task does its next step. -/
def withTunnel (id : Nat) (step : Tunnel → Option Tunnel) : Option Machines :=
  machines.tunnels[id]?.bind fun tunnel => (step tunnel).map (machines.setTunnel id)

/-- `run_ssh` starts `ssh`, or can't. -/
def spawn (id : Nat) (failure : Option Str) : Option Machines :=
  machines.tunnels[id]?.bind fun tunnel =>
    if tunnel.pc = .loop then
      some (match failure with
        | some e =>
          machines.setTunnel id { tunnel with
            pc := .noting none { SshEnded.fresh with last := "run ssh: " ++ e } }
        | none =>
          { (machines.setProcess machines.nextProcess
              ⟨id, tunnel.first, tunnel.forwards, [], [], [], true⟩).setTunnel id
              { tunnel with pc := .reading machines.nextProcess .fresh } with
            nextProcess := machines.nextProcess + 1 })
    else none

/-- `run_ssh` reads a line. -/
def readLine (id : Nat) : Option Machines :=
  machines.tunnels[id]?.bind fun tunnel =>
    match tunnel.pc with
    | .reading process ended =>
      machines.processes[process]?.bind fun ssh =>
        match ssh.unread with
        | line :: unread =>
          some ((machines.setProcess process { ssh with unread }).setTunnel id
            (tunnel.hear process ended line))
        | [] => none
    | _ => none

/-- There are no more lines, or reading them fails. -/
def stopReading (id : Nat) (fails : Bool) : Option Machines :=
  machines.withTunnel id fun tunnel =>
    match tunnel.pc with
    | .reading process ended =>
      if fails || machines.processes[process]?.any fun ssh => ssh.unread.isEmpty && !ssh.running
      then some { tunnel with pc := .waiting process ended }
      else none
    | _ => none

/-- `ssh` is waited for. -/
def reap (id : Nat) : Option Machines :=
  machines.withTunnel id fun tunnel =>
    match tunnel.pc with
    | .waiting process ended =>
      if machines.processes[process]?.any (!·.running) then
        some { tunnel with pc := .noting (some process) ended }
      else none
    | _ => none

def note (id : Nat) : Option Machines :=
  machines.withTunnel id fun tunnel =>
    match tunnel.pc with
    | .noting _ ended => some (tunnel.note ended)
    | _ => none

/-- The wait before the next `ssh` is over. -/
def wakeUp (id : Nat) : Option Machines :=
  machines.withTunnel id fun tunnel =>
    if tunnel.pc = .sleeping then
      some { tunnel with pc := .loop, wait := min (tunnel.wait * 2) retryMax }
    else none

/-- An aborted task is gone, and its `ssh` is killed. -/
def dropTask (id : Nat) : Option Machines :=
  machines.withTunnel id fun tunnel =>
    if tunnel.aborted then some { tunnel with pc := .dropped } else none

/-! ## Processes -/

/-- A process that runs does its next step. -/
def withProcess (id : Nat) (step : SshProcess → SshProcess) : Option Machines :=
  machines.processes[id]?.bind fun ssh =>
    if ssh.running then some (machines.setProcess id (step ssh)) else none

/-- `ssh` looks for the key it was presented. -/
def check (id : Nat) (key : Str) : Option Machines :=
  machines.withProcess id fun ssh =>
    { ssh with reads := ssh.reads ++ [(machines.knownHosts.lines, key)] }

def print (id : Nat) (line : Str) : Option Machines :=
  machines.withProcess id fun ssh =>
    { ssh with printed := ssh.printed ++ [line], unread := ssh.unread ++ [line] }

def exit (id : Nat) : Option Machines :=
  machines.withProcess id fun ssh => { ssh with running := false }

end Machines

/-! ## Schedules -/

inductive Event
  | restoreNext (opens : Bool)
  | add (name ssh hostKey : Str) (offered : List (Str × Str))
  | giveUp
  | rewriteForAdd (opens : Bool)
  | writeKnownHosts (written : Bool) (given : Except Str (List Nat))
  | logIn (accepted : Bool)
  | recordMachine (outcome : Outcome)
  | remove (name : Str) (outcome : Outcome) (opens : Bool)
  | addApp (request : MachineAppRequest) (given : Except Str (List Nat)) (outcome : Outcome)
      (again : Except Str (List Nat))
  | removeApp (name : Str) (outcome : Outcome) (given : Except Str (List Nat))
  | disconnectAll
  | spawn (tunnel : Nat) (failure : Option Str)
  | readLine (tunnel : Nat)
  | stopReading (tunnel : Nat) (fails : Bool)
  | reap (tunnel : Nat)
  | note (tunnel : Nat)
  | wakeUp (tunnel : Nat)
  | dropTask (tunnel : Nat)
  | check (process : Nat) (key : Str)
  | print (process : Nat) (line : Str)
  | exit (process : Nat)

/-- A request that is refused changes nothing, and is no step. -/
def Machines.step (machines : Machines) : Event → Option Machines
  | .restoreNext opens => if machines.unlocked then machines.restoreNext opens else none
  | .add name ssh hostKey offered =>
    if machines.isOpen && machines.unlocked then machines.add name ssh hostKey offered else none
  | .giveUp => machines.giveUp
  | .rewriteForAdd opens => if machines.unlocked then machines.rewriteForAdd opens else none
  | .writeKnownHosts written given => machines.writeKnownHosts written given
  | .logIn accepted => machines.logIn accepted
  | .recordMachine outcome => machines.recordMachine outcome
  | .remove name outcome opens =>
    if machines.isOpen && machines.unlocked then machines.remove name outcome opens else none
  | .addApp request given outcome again =>
    if machines.isOpen && machines.unlocked then machines.addApp request given outcome again
    else none
  | .removeApp name outcome given =>
    if machines.isOpen && machines.unlocked then machines.removeApp name outcome given else none
  | .disconnectAll =>
    if machines.isOpen && machines.unlocked then some machines.disconnectAll else none
  | .spawn tunnel failure => machines.spawn tunnel failure
  | .readLine tunnel => machines.readLine tunnel
  | .stopReading tunnel fails => machines.stopReading tunnel fails
  | .reap tunnel => machines.reap tunnel
  | .note tunnel => machines.note tunnel
  | .wakeUp tunnel => machines.wakeUp tunnel
  | .dropTask tunnel => machines.dropTask tunnel
  | .check process key => machines.check process key
  | .print process line => machines.print process line
  | .exit process => machines.exit process

/-! ## A Machine with an App -/

def MachineRecord.sample (name : Str) : MachineRecord :=
  ⟨name, "root@" ++ name, "ssh-ed25519 " ++ name, "SHA256:" ++ name⟩

def Stored.sample : Stored where
  machines := (∅ : ExtTreeMap Str MachineRecord compare).insert "a" (.sample "a")
  apps := (∅ : ExtTreeMap Str MachineAppRecord compare).insert "web"
    ⟨"web", "a", "web.example", 80⟩

/-- The Machine is restored, and its `ssh` runs. -/
def connects : List Event :=
  [.restoreNext true, .writeKnownHosts true (.ok [8080]), .spawn 0 none]

end Cirrocumulus.Ssh
