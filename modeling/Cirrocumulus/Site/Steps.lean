/-
# The agent as a whole

The VMs' side of an agent and its Machines' side meet in a few places. A request for a VM
looks at the Machines' Apps while it holds the table's lock, and a request for an App looks
at the table. `shutdown` sets its flag and lets the Machines go without that lock, and
takes it only to look whether an entry is Starting. And both sides are in one store, which
outlives the agent.

So the request that reserves a name takes two steps here. In the first it has the lock and
finds the flag down; in the second it looks at the Machines and at the table. Every other
step that takes the lock waits meanwhile, but the flag and the Machines may change.
-/

import Cirrocumulus.Ssh.Tunnels
import Cirrocumulus.Node.Processes

namespace Cirrocumulus

open Option
open Node (System NodeEvent AgentProcess RunRequest MachineAppRequest Outcome Subnet Standing)

/-- A request that reserves a name. -/
inductive Request
  | run (request : RunRequest) (log : Str)
  | wake (name : Str)

/-- Its look at the table. -/
def Request.event : Request → NodeEvent
  | .run request log => .runVm request log
  | .wake name => .wakeVm name

/-- Where `Agent::shutdown` is. -/
inductive Shutdown
  | off
  /-- The flag is set. -/
  | flagged
  | disconnected
  /-- Its loop has seen no Starting entry, and it returns. -/
  | looked
  deriving DecidableEq

/-- A Node, its VMs and its Machines. -/
structure Site where
  node : System
  machines : Ssh.Machines
  shutdown : Shutdown
  /-- The request that holds the table's lock, and has found the flag down. -/
  admitted : Option Request

/-- A Node on which no agent has run. -/
def Site.fresh : Site := ⟨.fresh, .start ⟨∅, ∅⟩ [], .off, none⟩

namespace Node

/-- The agent as a request finds it that has found the flag down. -/
def AgentProcess.seeing (up : AgentProcess) (machines : Machines) : AgentProcess :=
  { up with agent := { up.agent with machines, shuttingDown := false } }

def System.seeing (node : System) (machines : Machines) : System :=
  { node with up := node.up.map (·.seeing machines) }

/-- The step takes the table's lock, or holds it. -/
def System.takesLock (node : System) : NodeEvent → Bool
  | .remove _ | .removeStep _ => true
  | .launch task _ _ => (node.up.bind fun up => up.launching[task]?).any fun item =>
    match item.1 with
    | .handOver _ | .giveUp | .lose _ => true
    | _ => false
  | .supervise task _ _ _ => (node.up.bind fun up => up.supervising[task]?).any fun item =>
    match item.1 with
    | .record _ => true
    | _ => false
  | _ => false

/-- The step is the Node's own, and has no part in how requests and `shutdown` meet. -/
def NodeEvent.own : NodeEvent → Bool
  | .openSocket _ | .runVm _ _ | .wakeVm _ | .onMachines _ | .sigterm | .exit => false
  | _ => true

end Node

namespace Site

variable (site : Site)

/-- The agent's process is gone. -/
def gone (host : Node.Host) : Site :=
  ⟨⟨host, none⟩, .start site.machines.stored site.machines.knownHosts.lines, .off, none⟩

/-- The Node has taken a step, which may have ended its agent. -/
def onNode (node : System) : Site :=
  match node.up with
  | some _ => { site with node }
  | none => site.gone node.host

/-- The agent's socket is open. -/
def isReady : Bool := site.node.up.any (·.isReady)

/-- The socket is open, and the table's lock is free. -/
def isIdle : Bool := site.admitted.isNone && site.node.up.any fun up => up.isReady && up.unlocked

/-- `restore` follows `reconcile`, requests come in by the socket, and an App is added, and
the Machines are let go, by the agent. -/
def lets : Ssh.Event → Bool
  | .restoreNext _ => site.node.up.any fun up => up.boot == .sweep []
  | .add _ _ _ _ | .remove _ _ _ | .removeApp _ _ _ => site.isReady
  | .addApp _ _ _ _ | .disconnectAll => false
  | _ => site.node.up.isSome

/-- `run_on_machine`'s checks of the table, which it holds from then on. -/
def allowsApp (request : MachineAppRequest) : Bool :=
  (site.node.seeing site.machines.apps).up.any fun up =>
    (up.agent.runOnMachine request).toOption.isSome

end Site

/-! ## Schedules -/

inductive SiteEvent
  | node (event : NodeEvent)
  | machines (event : Ssh.Event)
  | openSocket
  /-- A request takes the table's lock, and finds the flag down. -/
  | accept (request : Request)
  /-- It looks at the Machines and the table, and reserves its name or is refused. -/
  | reserve
  | runOnMachine (request : MachineAppRequest) (given : Except Str (List Nat)) (outcome : Outcome)
      (again : Except Str (List Nat))
  | setFlag
  | disconnectAll
  | look
  | exit

def Site.step (subnet : Subnet) (site : Site) : SiteEvent → Option Site
  | .node event =>
    if event.own && (site.admitted.isNone || !site.node.takesLock event) then
      (site.node.step subnet event).map site.onNode
    else none
  | .machines event =>
    if site.lets event then
      (site.machines.step event).map fun machines => { site with machines }
    else none
  | .openSocket =>
    if site.machines.isOpen && site.machines.unlocked then
      (site.node.step subnet (.openSocket site.machines.apps)).map fun node => { site with node }
    else none
  | .accept request =>
    if site.isIdle && site.shutdown == .off then some { site with admitted := some request }
    else none
  | .reserve =>
    site.admitted.map fun request =>
      match (site.node.seeing site.machines.apps).step subnet request.event with
      | some node => { site with node, admitted := none }
      | none => { site with admitted := none }
  | .runOnMachine request given outcome again =>
    if site.isIdle && site.allowsApp request then
      (site.machines.step (.addApp request given outcome again)).map fun machines =>
        { site with machines }
    else none
  | .setFlag =>
    if site.isReady && site.shutdown == .off then some { site with shutdown := .flagged }
    else none
  | .disconnectAll =>
    if site.shutdown = .flagged then
      (site.machines.step .disconnectAll).map fun machines =>
        { site with machines, shutdown := .disconnected }
    else none
  | .look =>
    if site.shutdown == .disconnected && site.isIdle &&
        !site.node.up.any fun up => up.agent.vms.toList.any fun item => item.2.isStarting then
      some { site with shutdown := .looked }
    else none
  | .exit => if site.shutdown = .looked then some (site.gone site.node.host) else none

/-! ## What a step does -/

/-- The steps a Site can take, each with what it needs. -/
inductive Site.Move (subnet : Subnet) (site : Site) : SiteEvent → Site → Prop
  | node {event node} (hown : event.own)
      (hlock : site.admitted = none ∨ site.node.takesLock event = false)
      (hstep : site.node.step subnet event = some node) :
      Move subnet site (.node event) (site.onNode node)
  | machines {event machines} (hlets : site.lets event)
      (hstep : site.machines.step event = some machines) :
      Move subnet site (.machines event) { site with machines }
  | openSocket {node} (hopen : site.machines.isOpen)
      (hunlocked : site.machines.unlocked)
      (hstep : site.node.step subnet (.openSocket site.machines.apps) = some node) :
      Move subnet site .openSocket { site with node }
  | accept {request} (hidle : site.isIdle) (hoff : site.shutdown = .off) :
      Move subnet site (.accept request) { site with admitted := some request }
  | reserve {request node} (hadmitted : site.admitted = some request)
      (hstep : (site.node.seeing site.machines.apps).step subnet request.event = some node) :
      Move subnet site .reserve { site with node, admitted := none }
  | refused {request} (hadmitted : site.admitted = some request) :
      Move subnet site .reserve { site with admitted := none }
  | runOnMachine {request given outcome again machines}
      (hidle : site.isIdle) (hallows : site.allowsApp request)
      (hstep : site.machines.step (.addApp request given outcome again) = some machines) :
      Move subnet site (.runOnMachine request given outcome again) { site with machines }
  | setFlag (hready : site.isReady) (hoff : site.shutdown = .off) :
      Move subnet site .setFlag { site with shutdown := .flagged }
  | disconnectAll {machines} (hflagged : site.shutdown = .flagged)
      (hstep : site.machines.step .disconnectAll = some machines) :
      Move subnet site .disconnectAll { site with machines, shutdown := .disconnected }
  | look (hdisconnected : site.shutdown = .disconnected) (hidle : site.isIdle)
      (hnone : ∀ up, site.node.up = some up → ∀ (name : Str) (entry : Node.Entry),
        up.agent.vms[name]? = some entry → entry.isStarting = false) :
      Move subnet site .look { site with shutdown := .looked }
  | exit (hlooked : site.shutdown = .looked) : Move subnet site .exit (site.gone site.node.host)

variable {subnet : Subnet} {site next : Site} {event : SiteEvent}

theorem Site.move_of_step (hstep : site.step subnet event = some next) :
    site.Move subnet event next := by
  cases event with
  | node event =>
    obtain ⟨hcond, hstep⟩ := ite_none_right_eq_some.mp hstep
    obtain ⟨node, hnode, rfl⟩ := map_eq_some_iff.mp hstep
    simp only [Bool.and_eq_true, Bool.or_eq_true, isNone_iff_eq_none,
      Bool.not_eq_true'] at hcond
    exact .node hcond.1 hcond.2 hnode
  | machines event =>
    obtain ⟨hlets, hstep⟩ := ite_none_right_eq_some.mp hstep
    obtain ⟨machines, hmachines, rfl⟩ := map_eq_some_iff.mp hstep
    exact .machines hlets hmachines
  | openSocket =>
    obtain ⟨hcond, hstep⟩ := ite_none_right_eq_some.mp hstep
    obtain ⟨node, hnode, rfl⟩ := map_eq_some_iff.mp hstep
    obtain ⟨hopen, hunlocked⟩ := Bool.and_eq_true_iff.mp hcond
    exact .openSocket hopen hunlocked hnode
  | accept request =>
    obtain ⟨hcond, rfl⟩ := ite_some_none_eq_some.mp hstep
    simp only [Bool.and_eq_true, beq_iff_eq] at hcond
    exact .accept hcond.1 hcond.2
  | reserve =>
    obtain ⟨request, hadmitted, rfl⟩ := map_eq_some_iff.mp hstep
    cases hnode : (site.node.seeing site.machines.apps).step subnet request.event with
    | none => exact .refused hadmitted
    | some node => exact .reserve hadmitted hnode
  | runOnMachine request given outcome again =>
    obtain ⟨hcond, hstep⟩ := ite_none_right_eq_some.mp hstep
    obtain ⟨machines, hmachines, rfl⟩ := map_eq_some_iff.mp hstep
    obtain ⟨hidle, hallows⟩ := Bool.and_eq_true_iff.mp hcond
    exact .runOnMachine hidle hallows hmachines
  | setFlag =>
    obtain ⟨hcond, rfl⟩ := ite_some_none_eq_some.mp hstep
    simp only [Bool.and_eq_true, beq_iff_eq] at hcond
    exact .setFlag hcond.1 hcond.2
  | disconnectAll =>
    obtain ⟨hflagged, hstep⟩ := ite_none_right_eq_some.mp hstep
    obtain ⟨machines, hmachines, rfl⟩ := map_eq_some_iff.mp hstep
    exact .disconnectAll hflagged hmachines
  | look =>
    obtain ⟨hcond, rfl⟩ := ite_some_none_eq_some.mp hstep
    simp only [Bool.and_eq_true, beq_iff_eq, Bool.not_eq_true', any_eq_false] at hcond
    obtain ⟨⟨hdisconnected, hidle⟩, hnone⟩ := hcond
    refine .look hdisconnected hidle fun up hup => ?_
    simpa using hnone up hup
  | exit =>
    obtain ⟨hlooked, rfl⟩ := ite_some_none_eq_some.mp hstep
    exact .exit hlooked

theorem Site.admitted_of_isIdle (hidle : site.isIdle) : site.admitted = none := by
  simp only [isIdle, Bool.and_eq_true, isNone_iff_eq_none] at hidle
  exact hidle.1

theorem Site.up_of_isReady (hready : site.isReady) : site.node.up.isSome := by
  obtain ⟨up, hup, -⟩ := (any_eq_true _ _).mp hready
  rw [hup]
  rfl

/-! ## What a step is for the Node -/

/-- A step of the Site leaves the Node alone, or is a step of the Node as its agent, or a
request to it, sees it. -/
inductive Site.NodeMove (subnet : Subnet) (site next : Site) (event : SiteEvent) : Prop
  | stays (hnode : next.node = site.node)
  | moves {nodeEvent} (hstep : site.node.step subnet nodeEvent = some next.node)
      (hbegins : ∀ launch : Node.Launch, ¬ launch.From nodeEvent)
      (hboot : nodeEvent = .boot → event = .node .boot)
  | reserves {request}
      (hstep : (site.node.seeing site.machines.apps).step subnet request.event = some next.node)
      (hadmitted : site.admitted = some request) (hevent : event = .reserve)

theorem Site.node_onNode (site : Site) (node : System) : (site.onNode node).node = node := by
  obtain ⟨host, up⟩ := node
  cases up <;> rfl

theorem Node.NodeEvent.not_from_of_own {event} (h : event.own)
    (launch : Node.Launch) : ¬ launch.From event := by
  rintro ⟨⟩ <;> cases h

theorem Node.AgentProcess.beginMove_of_request {host} {up : AgentProcess} {node}
    {request : Cirrocumulus.Request} (h : up.step subnet host request.event = some node) :
    ∃ launch : Node.Launch, launch.From request.event ∧ up.BeginMove subnet host launch node := by
  cases request with
  | run => exact runVm_eq_some h
  | wake => exact wakeVm_eq_some h

/-- What a request found that reserved its name. -/
theorem reserve_of_step {request : Request} {node}
    (hstep : (site.node.seeing site.machines.apps).step subnet request.event = some node) :
    ∃ up, site.node.up = some up ∧
      (up.seeing site.machines.apps).step subnet site.node.host request.event = some node := by
  obtain ⟨up, hup, hstep⟩ : ∃ up, (site.node.seeing site.machines.apps).up = some up ∧
      up.step subnet site.node.host request.event = some node := by
    cases request <;> exact bind_eq_some_iff.mp hstep
  obtain ⟨was, hwas, rfl⟩ := map_eq_some_iff.mp hup
  exact ⟨was, hwas, hstep⟩

theorem Site.nodeMove (hstep : site.step subnet event = some next) :
    site.NodeMove subnet next event := by
  cases move_of_step hstep with
  | @node event node hown hlock hnode =>
    refine .moves ?_ (event.not_from_of_own hown) (congrArg _)
    rw [site.node_onNode]
    exact hnode
  | openSocket hopen hunlocked hnode => exact .moves hnode (by rintro _ ⟨⟩) nofun
  | reserve hadmitted hnode => exact .reserves hnode hadmitted rfl
  | exit =>
    cases hup : site.node.up with
    | none =>
      refine .stays ?_
      change System.mk site.node.host none = site.node
      rw [← hup]
    | some up =>
      have hcrash : site.node.step subnet .crash = some ⟨site.node.host, none⟩ := by
        simp [System.step, hup, AgentProcess.step]
      exact .moves hcrash (by rintro _ ⟨⟩) (by rintro ⟨⟩)
  | _ => exact .stays rfl

/-! ## What a request sees -/

namespace Node

variable {node : System} {machines : Machines} {name : Str} {s : Standing} {a : Ipv4Addr}

theorem AgentProcess.Sound.seeing {host} {up : AgentProcess} (h : up.Sound subnet host) :
    (up.seeing machines).Sound subnet host := by
  have hsame : SameTasks up.agent { up.agent with machines, shuttingDown := false } :=
    ⟨rfl, rfl, rfl, rfl⟩
  exact h.of_sameTasks hsame rfl fun hboot => ⟨hboot, (h.booting hboot).2⟩

theorem System.Reached.seeing (h : node.Reached subnet) :
    (node.seeing machines).Reached subnet := by
  obtain ⟨host, found⟩ := node
  cases found with
  | none => exact h
  | some up =>
    refine ⟨⟨h.sound.host, fun hup => ?_⟩, fun up' hup => ?_⟩
    · cases hup
      exact (h.sound.up rfl).seeing
    · cases hup
      have hset := h.settled up rfl
      exact ⟨hset.loading, hset.removing, hset.sweeping⟩

theorem System.stands_seeing : (node.seeing machines).Stands name s ↔ node.Stands name s := by
  obtain ⟨host, found⟩ := node
  cases found with
  | none =>
    constructor
    · intro hs
      cases hs with
      | down => exact .down rfl
      | up hup => cases hup
    · intro hs
      cases hs with
      | down => exact .down rfl
      | up hup => cases hup
  | some up =>
    constructor
    · intro hs
      have hstands : (up.seeing machines).Stands name s := hs.of_up
      exact .up rfl (hstands.of_agrees {})
    · intro hs
      have hstands : (up.seeing machines).Stands name s := hs.of_up.of_agrees {}
      exact .up rfl hstands

theorem System.Occupied.of_seeing {holder} (h : (node.seeing machines).Occupied a holder) :
    node.Occupied a holder := by
  cases h with
  | nobody hfree => exact .nobody fun name s hs => hfree name s (stands_seeing.mpr hs)
  | somebody hs ha => exact .somebody (stands_seeing.mp hs) ha

end Node

theorem Site.NodeMove.reached (h : site.node.Reached subnet)
    (hmove : site.NodeMove subnet next event) : next.node.Reached subnet := by
  cases hmove with
  | stays hnode =>
    rw [hnode]
    exact h
  | moves hstep hbegins hboot => exact h.step hstep
  | reserves hstep hadmitted hevent => exact h.seeing.step hstep

end Cirrocumulus
