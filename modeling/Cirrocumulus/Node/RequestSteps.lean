/-
# What a step is to a request

`EdgeMove` says what a step does to claims, guards and tables. A request sees other things
of it: whether it is a step of its own and which, whether something has settled, what
became of the task it waits for, and what its App's entry is now. `Edge.Seen` says that,
event by event, and leaves out what happens between a park and a supervisor.
-/

import Cirrocumulus.Node.Held

namespace Cirrocumulus.Node

/-! ## What a step is to a request -/

/-- A step of a park or of a supervisor changes nothing that a request looks at, and at
most tells it that something has settled. -/
structure Edge.Apart (edge next : Edge) : Prop where
  agent : next.agent = edge.agent
  guards : next.guards = edge.guards
  results : next.results = edge.results
  nextRequest : next.nextRequest = edge.nextRequest
  requests : next.requests = edge.requests ∨ next.requests = edge.notifyWaiters.requests

/-- A name is reserved for a start or a wake, and its task spawned. A start never takes
the name of a parked VM. -/
structure Edge.Reserves (edge : Edge) (launch : Launch) (next : Edge) : Prop where
  agent : next.agent = edge.agent.reserve launch
  guards : next.guards =
    edge.guards.insert edge.agent.nextTask ⟨launch.name, launch.isWake, .spawned⟩
  results : next.results = edge.results
  nextRequest : next.nextRequest = edge.nextRequest
  unparked : ∀ old, launch.kind = .start (some old) → isParked old.info = false

/-- A step as the requests see it, and the tasks they wait for. -/
inductive Edge.Seen (subnet : Subnet) (edge : Edge) : EdgeEvent → Edge → Prop
  | apart {event next} (happart : edge.Apart next) : Seen subnet edge event next
  | arrives (host : Str) : Seen subnet edge (.resolve host) (edge.resolve host)
  | hangsUp (id : Nat) : Seen subnet edge (.hangUp id) (edge.hangUp id)
  | request {event id request request'} (hrequest : edge.requests[id]? = some request)
      (hstep : edge.RequestStep subnet id request event request') :
      Seen subnet edge event (edge.setRequest id request')
  | reserves {event launch next} (hreserves : edge.Reserves launch next)
      (hrequests : next.requests = edge.requests) : Seen subnet edge event next
  /-- A request wakes its App, and waits for the task it has spawned. -/
  | wakes {id isDir request launch next} (hrequest : edge.requests[id]? = some request)
      (hpc : request.pc = .wake launch.name) (hwake : launch.isWake)
      (hreserves : edge.Reserves launch next) (hrequests : next.requests = edge.requests.insert id
        { request with pc := .await launch.name edge.agent.nextTask }) :
      Seen subnet edge (.wake id isDir) next
  | guards {event task guard pc wakeFailures} (hguard : edge.guards[task]? = some guard)
      (hpc : guard.pc = .spawned ∧ pc = .working ∨
        ∃ failure, guard.pc = .finished failure ∧ pc = .noted failure) :
      Seen subnet edge event { edge.setGuard task { guard with pc } with wakeFailures }
  | finishes {task how guard agent watches} (hguard : edge.guards[task]? = some guard)
      (hagent : edge.finished task guard.isWake how = some agent) :
      Seen subnet edge (.finish task how)
        { edge.setGuard task { guard with pc := .finished (Edge.Guard.failure guard how) } with
          agent, watches }
  | settles {event task guard failure} (hguard : edge.guards[task]? = some guard)
      (hresult : Edge.Guard.result guard = some failure) :
      Seen subnet edge event { edge with
        guards := edge.guards.erase task
        results := edge.results.insert task failure }.notifyWaiters
  | recordsEnd {task ended agent} (hagent : edge.agent.vmEnded task ended = some agent) :
      Seen subnet edge (.recordEnd task ended) { edge with agent }
  | removes {event} (name : Str) :
      Seen subnet edge event
        { edge with agent := { edge.agent with vms := edge.agent.vms.erase name } }
  | same {event agent} (hsame : SameTasks edge.agent agent) :
      Seen subnet edge event { edge with agent }

section

variable {subnet : Subnet} {edge next : Edge}

theorem Edge.Apart.refl (edge : Edge) : edge.Apart edge := ⟨rfl, rfl, rfl, rfl, .inl rfl⟩

theorem Edge.Apart.answer (edge : Edge) (id : Nat) (pc : ParkPc) :
    edge.Apart (edge.answer id pc) := by
  unfold Edge.answer
  split <;> exact ⟨rfl, rfl, rfl, rfl, .inl rfl⟩

/-- What a supervisor's own state becomes is no matter to a request. -/
theorem Edge.Apart.setWatch {middle} (h : edge.Apart middle) (task : Nat)
    (watched : Watched) : edge.Apart (middle.setWatch task watched) :=
  ⟨h.agent, h.guards, h.results, h.nextRequest, h.requests⟩

theorem Edge.Apart.take {before name task} (h : edge.Apart before)
    (htake : before.take name task = some next) : edge.Apart next := by
  obtain ⟨watched, -, -, rfl⟩ := Edge.take_eq_some htake
  exact ⟨h.agent, h.guards, h.results, h.nextRequest, h.requests⟩

/-! ## Every step is seen so -/

theorem EdgeMove.seen {event} (h : EdgeMove subnet edge event next) :
    edge.Seen subnet event next := by
  cases h with
  | request hmove =>
    cases hmove with
    | arrives host => exact .arrives host
    | steps hrequest hstep => exact .request hrequest hstep
  | hangUp id => exact .hangsUp id
  | reserve hreserves hasks =>
    cases hasks with
    | apart => exact .reserves ⟨rfl, rfl, rfl, rfl, hreserves.unparked⟩ rfl
    | wakes hrequest hpc hwake =>
      exact .wakes hrequest hpc hwake ⟨rfl, rfl, rfl, rfl, hreserves.unparked⟩ rfl
  | guard hguard pc hpc => exact .guards hguard hpc
  | ended hguard hagent => exact .finishes hguard hagent
  | @launched task startedAt guard launch hguard hlaunch =>
    obtain ⟨agent, hagent⟩ : ∃ agent, edge.agent.launched task startedAt = some agent := by
      simp [Agent.launched, hlaunch]
    obtain ⟨_, hfound, rfl⟩ := launched_eq_some hagent
    cases hlaunch.symm.trans hfound
    exact .finishes hguard hagent
  | settle hguard hresult => exact .settles hguard hresult
  | take hentry htake => exact .apart ((Edge.Apart.refl edge).take htake)
  | takeAll idle =>
    apply Edge.Seen.apart
    exact Edge.parkIdleApps_induction (Edge.Apart.refl edge)
      (fun hbefore _ htake => hbefore.take htake) idle
  | park | send | release => exact .apart ⟨rfl, rfl, rfl, rfl, .inl rfl⟩
  | settlePark => exact .apart ⟨rfl, rfl, rfl, rfl, .inr rfl⟩
  | watch => exact .apart ((Edge.Apart.refl edge).setWatch _ _)
  | answer => exact .apart ((Edge.Apart.answer edge _ _).setWatch _ _)
  | recordEnd ended hwatched hpc hsup =>
    apply Edge.Seen.recordsEnd
    simp [Agent.vmEnded, hsup]
  | removed => exact .removes _
  | same hsame => exact .same hsame

end

end Cirrocumulus.Node
