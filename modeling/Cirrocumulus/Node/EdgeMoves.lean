/-
# The steps of the edge's system

What each step of a request, a start, a wake, a park or a supervisor can do, said once:
`EdgeMove` has one constructor for each kind of change, with what was found before it.
The invariants of the edge are shown over these and never look into a step again.
-/

import Cirrocumulus.Node.Edge

namespace Cirrocumulus.Node

open List Option
open Std (ExtTreeMap)

variable {event : EdgeEvent} {task id : Nat} {name : Str} {agent : Agent}

/-- What a request that looks finds to wait for. -/
def Edge.Finds (edge : Edge) (name : Str) : Holding → Prop
  | .start => ∃ vmAddress log route, edge.agent.vms[name]? = some (.starting vmAddress log route)
  | .park => ∃ info log task, edge.agent.vms[name]? = some (.running info log task) ∧
      edge.isParking task = true

/-- How a park's task goes on without touching a claim or a channel. -/
inductive Edge.ParkStep (edge : Edge) (park : Park) : ParkPc → Prop
  | begin (hpc : park.pc = .spawned) : ParkStep edge park .lookUp
  | found {info log task} (hpc : park.pc = .lookUp)
      (hentry : edge.agent.vms[park.name]? = some (.running info log task)) :
      ParkStep edge park (.send task)
  | giveUp (hpc : park.pc ≠ .settle) (hunsent : ∀ target, park.pc = .sent target →
      edge.watches[target]?.any (·.pc = .closed)) : ParkStep edge park .release

/-- The parks that a supervisor was asked for and has not answered. -/
def Watched.asked (watched : Watched) : List Nat :=
  (match watched.pc with
    | .parking id => [id]
    | _ => []) ++ watched.inbox.filterMap Message.asksPark

/-- A step of the request `id` itself that leaves everything else alone. -/
inductive Edge.RequestStep (subnet : Subnet) (edge : Edge) (id : Nat) (request : EdgeRequest) :
    EdgeEvent → EdgeRequest → Prop
  | listens : RequestStep subnet edge id request (.listen id)
      { request with notified := false, pc := .look }
  | looks (onMachine : Option Resolution) :
      RequestStep subnet edge id request (.look id onMachine) (edge.afterLook request
        (stepFor edge.isParking onMachine edge.agent.vms request.host))
  | goesOn : RequestStep subnet edge id request (.goOn id) { request with pc := .listen }
  | timesOut (why : Str) : RequestStep subnet edge id request (.timeout id)
      { request with pc := .done (.unavailable why) }
  /-- The wake it was about to do is refused, maybe because another got there first. -/
  | conflicts {name why isDir} (hpc : request.pc = .wake name)
      (herror : edge.agent.wakeVm subnet name isDir = .error ⟨.conflict, why⟩) :
      RequestStep subnet edge id request (.wake id isDir)
        { request with tried := some (some why), pc := .listen }
  | refused {name why isDir status} (hpc : request.pc = .wake name)
      (herror : edge.agent.wakeVm subnet name isDir = .error ⟨status, why⟩)
      (hstatus : status ≠ .conflict) :
      RequestStep subnet edge id request (.wake id isDir)
        { request with pc := .done (.unavailable why) }
  /-- The wake it waited for is over. -/
  | woken {name : Str} {task} (hpc : request.pc = .await name task)
      (hresult : edge.results[task]? = some none) :
      RequestStep subnet edge id request (.woken id) { request with pc := .listen }
  | failed {name why task} (hpc : request.pc = .await name task)
      (hresult : edge.results[task]? = some (some why)) :
      RequestStep subnet edge id request (.woken id) { request with pc := .done (.unavailable why) }

/-- A request arrives or takes a step. -/
inductive Edge.RequestMove (subnet : Subnet) (edge : Edge) :
    EdgeEvent → Nat → EdgeRequest → Nat → Prop
  | arrives (host : Str) : RequestMove subnet edge (.resolve host) edge.nextRequest
      ⟨host, none, false, .listen⟩ (edge.nextRequest + 1)
  | steps {event : EdgeEvent} {id request request'} (hrequest : edge.requests[id]? = some request)
      (hstep : edge.RequestStep subnet id request event request') :
      RequestMove subnet edge event id request' edge.nextRequest

/-- The requests when a name is reserved, maybe for one that waits for its wake from now on. -/
inductive Edge.Asks (edge : Edge) (launch : Launch) :
    EdgeEvent → ExtTreeMap Nat EdgeRequest compare → Prop
  | apart {event : EdgeEvent} : Asks edge launch event edge.requests
  | wakes {id isDir request}
      (hrequest : edge.requests[id]? = some request) (hpc : request.pc = .wake launch.name)
      (hwake : launch.isWake) : Asks edge launch (.wake id isDir)
        (edge.requests.insert id { request with pc := .await launch.name edge.agent.nextTask })

/-- The name that an event gives to a start or a wake, or removes. -/
def Edge.takes (subnet : Subnet) (edge : Edge) : EdgeEvent → Option Str
  | .runVm run _ => some run.name
  | .wakeVm name _ | .remove name => some name
  | .wake id isDir =>
    edge.requests[id]?.bind fun request =>
      match request.pc with
      | .wake name => if (edge.agent.wakeVm subnet name isDir).isOk then some name else none
      | _ => none
  | _ => none

/-- What a step can do, by its event. -/
inductive EdgeMove (subnet : Subnet) (edge : Edge) : EdgeEvent → Edge → Prop
  | request {event : EdgeEvent} {id request nextRequest}
      (hmove : edge.RequestMove subnet event id request nextRequest) :
      EdgeMove subnet edge event { edge.setRequest id request with nextRequest }
  | hangUp (id : Nat) : EdgeMove subnet edge (.hangUp id) (edge.hangUp id)
  /-- A name is reserved, and its task spawned. -/
  | reserve {event : EdgeEvent} {requests launch} (hreserves : edge.agent.MayReserve subnet launch)
      (hasks : edge.Asks launch event requests)
      (htakes : edge.takes subnet event = some launch.name) :
      EdgeMove subnet edge event
        { edge with
          agent := edge.agent.reserve launch
          guards := edge.guards.insert edge.agent.nextTask ⟨launch.name, launch.isWake, .spawned⟩
          requests }
  | guard {event task guard wakeFailures} (hguard : edge.guards[task]? = some guard)
      (pc : GuardPc) (hpc : guard.pc = .spawned ∧ pc = .working ∨
        ∃ failure, guard.pc = .finished failure ∧ pc = .noted failure) :
      EdgeMove subnet edge event { edge.setGuard task { guard with pc } with wakeFailures }
  | ended {task how guard agent launch left} (hguard : edge.guards[task]? = some guard)
      (hagent : edge.finished task guard.isWake how = some agent)
      (hend : LaunchEnded edge.agent task agent launch left) :
      EdgeMove subnet edge (.finish task how)
        { edge.setGuard task { guard with pc := .finished (Edge.Guard.failure guard how) } with
          agent }
  | launched {task startedAt guard launch} (hguard : edge.guards[task]? = some guard)
      (hlaunch : edge.agent.launches[task]? = some launch) :
      EdgeMove subnet edge (.finish task (.launched startedAt))
        { edge.setGuard task { guard with pc := .finished none } with
          agent := (edge.agent.endLaunch task (edge.agent.vms.erase launch.name)).adopt
            (launch.info startedAt) launch.log
          watches := edge.watches.insert edge.agent.nextTask .fresh }
  | settle {event task guard failure} (hguard : edge.guards[task]? = some guard)
      (hresult : Edge.Guard.result guard = some failure) :
      EdgeMove subnet edge event { edge with
        guards := edge.guards.erase task
        results := edge.results.insert task failure }.notifyWaiters
  | take {event name info log task next}
      (hentry : edge.agent.vms[name]? = some (.running info log task))
      (htake : edge.take name task = some next) : EdgeMove subnet edge event next
  | takeAll {event : EdgeEvent} (idle : List Str) :
      EdgeMove subnet edge event (edge.parkIdleApps idle)
  | park {event id park pc} (hpark : edge.parks[id]? = some park) (hstep : edge.ParkStep park pc) :
      EdgeMove subnet edge event (edge.setPark id { park with pc })
  | send {event id target park watched}
      (hpark : edge.parks[id]? = some park) (hpc : park.pc = .send target)
      (hwatched : edge.watches[target]? = some watched) (hopen : watched.pc ≠ .closed) :
      EdgeMove subnet edge event ((edge.setPark id { park with pc := .sent target }).setWatch
        target { watched with inbox := watched.inbox ++ [.park id] })
  | release {event id park watched} (hpark : edge.parks[id]? = some park) (hpc : park.pc = .release)
      (hwatched : edge.watches[park.traffic]? = some watched) :
      EdgeMove subnet edge event ((edge.setPark id { park with pc := .settle }).setWatch
        park.traffic { watched with parking := false })
  | settlePark {event id park} (hpark : edge.parks[id]? = some park) (hpc : park.pc = .settle) :
      EdgeMove subnet edge event { edge with parks := edge.parks.erase id }.notifyWaiters
  /-- A supervisor goes on, with no park more to answer than before. -/
  | watch {event task watched pc inbox} (hwatched : edge.watches[task]? = some watched)
      (hasked : (Watched.asked ⟨pc, inbox, watched.parking⟩).Sublist watched.asked)
      (hopen : watched.pc ≠ .closed) (hclosed : pc = .closed → inbox = []) :
      EdgeMove subnet edge event (edge.setWatch task { watched with pc, inbox })
  /-- A supervisor answers a park. -/
  | answer {event task id watched pc inbox parkPc} (hwatched : edge.watches[task]? = some watched)
      (hasked : (id :: Watched.asked ⟨pc, inbox, watched.parking⟩).Sublist watched.asked)
      (hpc : parkPc = .release ∨ parkPc = .ending task) (hopen : pc ≠ .closed) :
      EdgeMove subnet edge event ((edge.answer id parkPc).setWatch task { watched with pc, inbox })
  | recordEnd {task name watched} (ended : Ended) (hwatched : edge.watches[task]? = some watched)
      (hpc : watched.pc = .closed) (hsup : edge.agent.supervisors[task]? = some name) :
      EdgeMove subnet edge (.recordEnd task ended) { edge with agent := { edge.agent with
        vms := recordEnd edge.agent.vms name ended
        supervisors := edge.agent.supervisors.erase task } }
  | removed {name info log} (hended : edge.agent.vms[name]? = some (.ended info log)) :
      EdgeMove subnet edge (.remove name)
        { edge with agent := { edge.agent with vms := edge.agent.vms.erase name } }
  | same {event : EdgeEvent} {agent} (hsame : SameTasks edge.agent agent) :
      EdgeMove subnet edge event { edge with agent }

section

variable {subnet : Subnet} {edge next : Edge}

theorem afterLook_hold {request step holding}
    (h : (edge.afterLook request step).pc = .hold name holding) : step = .hold name holding := by
  cases step with
  | answer resolution => cases h
  | hold other what =>
    cases h
    rfl
  | wake other =>
    simp only [Edge.afterLook] at h
    split at h <;> cases h

/-- What a request waits for is there when it looks. -/
theorem Edge.finds_of_stepFor {onMachine host holding}
    (h : stepFor edge.isParking onMachine edge.agent.vms host = .hold name holding) :
    edge.Finds name holding := by
  unfold stepFor at h
  split at h
  · cases h
  · split at h
    · cases h
    · rename_i info log task hfind
      have hentry := (Lib.lookup_of_find? hfind).1
      split at h
      · rename_i hparking
        cases h
        exact ⟨info, log, task, hentry, hparking⟩
      · split at h <;> cases h
    · rename_i vmAddress log route hfind
      cases h
      exact ⟨vmAddress, log, route, (Lib.lookup_of_find? hfind).1⟩
    · split at h <;> cases h

/-- What a request waits for after its own step is there. -/
theorem Edge.RequestMove.finds {request nextRequest holding}
    (h : edge.RequestMove subnet event id request nextRequest)
    (hhold : request.pc = .hold name holding) : edge.Finds name holding := by
  cases h with
  | arrives => cases hhold
  | steps hrequest hstep =>
    cases hstep with
    | looks => exact finds_of_stepFor (afterLook_hold hhold)
    | listens | goesOn | timesOut | conflicts | refused | woken | failed => cases hhold

/-- No request begins to wait for something to settle when a name is reserved. -/
theorem Edge.Asks.unheld {launch requests} (h : edge.Asks launch event requests) {request holding}
    (hrequest : requests[id]? = some request) (hhold : request.pc = .hold name holding) :
    edge.requests[id]? = some request := by
  cases h with
  | apart => exact hrequest
  | wakes =>
    obtain ⟨-, rfl⟩ | ⟨-, hrequest⟩ := Lib.of_lookup_insert hrequest
    · cases hhold
    · exact hrequest

/-- A reservation is one move, whoever asked for it. -/
theorem EdgeMove.of_reserve {launch requests} (hreserves : edge.agent.MayReserve subnet launch)
    (hasks : edge.Asks launch event requests) (htakes : edge.takes subnet event = some launch.name)
    (h : edge.reserve (edge.agent.reserve launch) = some next) :
    EdgeMove subnet edge event { next with requests } := by
  simp only [Edge.reserve, Agent.reserve, Agent.spawnLaunch, Lib.lookup_insert, if_true, map_some,
    Option.some.injEq] at h
  subst h
  exact .reserve hreserves hasks htakes

theorem Edge.requests_of_reserve (h : edge.reserve agent = some next) :
    next.requests = edge.requests := by
  obtain ⟨launch, -, rfl⟩ := map_eq_some_iff.mp h
  rfl

theorem EdgeMove.of_runVm {run log} (hagent : edge.agent.runVm subnet run log = .ok agent)
    (h : edge.reserve agent = some next) : EdgeMove subnet edge (.runVm run log) next := by
  obtain ⟨reserved, hspec, rfl⟩ := runVm_eq_ok hagent
  have hmove : EdgeMove subnet edge (.runVm run log) { next with requests := edge.requests } :=
    .of_reserve hspec.reserves .apart rfl h
  rwa [← Edge.requests_of_reserve h] at hmove

theorem EdgeMove.of_wakeVm {isDir requests}
    (hagent : edge.agent.wakeVm subnet name isDir = .ok agent)
    (hasks : ∀ launch : Launch, launch.name = name → launch.isWake →
      edge.Asks launch event requests) (htakes : edge.takes subnet event = some name)
    (h : edge.reserve agent = some next) : EdgeMove subnet edge event { next with requests } := by
  obtain ⟨reserved, hspec, rfl⟩ := wakeVm_eq_ok hagent
  exact .of_reserve hspec.reserves (hasks _ rfl rfl) htakes h

theorem EdgeMove.of_wake {isDir} (h : edge.wake subnet id isDir = some next) :
    EdgeMove subnet edge (.wake id isDir) next := by
  obtain ⟨request, hrequest, h⟩ := bind_eq_some_iff.mp h
  split at h
  · rename_i name hpc
    split at h
    · rename_i agent hagent
      obtain ⟨reserved, hreserved, rfl⟩ := map_eq_some_iff.mp h
      rw [Edge.setRequest, Edge.requests_of_reserve hreserved]
      refine .of_wakeVm hagent (fun launch hname hwake => ?_) ?_ hreserved
      · subst hname
        exact .wakes hrequest hpc hwake
      · simp [Edge.takes, hrequest, hpc, hagent, Except.isOk, Except.toBool]
    · rename_i why herror
      cases h
      exact .request (.steps hrequest (.conflicts hpc herror))
    · rename_i status why hstatus herror
      cases h
      exact .request (.steps hrequest (.refused hpc herror fun hconflict => hstatus hconflict))
  · cases h

theorem EdgeMove.of_finish {how} (h : edge.finish task how = some next) :
    EdgeMove subnet edge (.finish task how) next := by
  obtain ⟨guard, hguard, h⟩ := bind_eq_some_iff.mp h
  split at h
  · obtain ⟨agent, hagent, rfl⟩ := map_eq_some_iff.mp h
    have hfinished := hagent
    cases how with
    | launched startedAt =>
      obtain ⟨launch, hlaunch, rfl⟩ := launched_eq_some hagent
      exact .launched hguard hlaunch
    | failed error =>
      simp only [Edge.finished] at hagent
      split at hagent
      · obtain ⟨launch, hend⟩ := wakeFailed_eq_some hagent
        exact .ended hguard hfinished hend
      · obtain ⟨launch, hend⟩ := startFailed_eq_some hagent
        exact .ended hguard hfinished hend
    | lost time error =>
      obtain ⟨launch, parked, -, hend⟩ := wakeLost_eq_some hagent
      exact .ended hguard hfinished hend
  · cases h

theorem EdgeMove.of_guard (h : edge.begin task = some next ∨ edge.noteWake task = some next) :
    EdgeMove subnet edge event next := by
  rcases h with h | h
  · obtain ⟨guard, hguard, h⟩ := bind_eq_some_iff.mp h
    split at h
    · rename_i hpc
      cases h
      exact .guard hguard .working (.inl ⟨hpc, rfl⟩)
    · cases h
  · obtain ⟨guard, hguard, h⟩ := bind_eq_some_iff.mp h
    split at h
    · rename_i failure hpc
      split at h
      · cases h
        exact .guard hguard (.noted failure) (.inr ⟨failure, hpc, rfl⟩)
      · cases h
    · cases h

theorem Edge.Guard.over_of_result {guard failure} (h : result guard = some failure) :
    guard.pc ≠ .spawned ∧ guard.pc ≠ .working := by
  constructor <;> intro hpc <;> simp [result, hpc] at h

theorem EdgeMove.of_settle (h : edge.settle task = some next) :
    EdgeMove subnet edge event next := by
  obtain ⟨guard, hguard, h⟩ := bind_eq_some_iff.mp h
  obtain ⟨failure, hresult, rfl⟩ := map_eq_some_iff.mp h
  exact .settle hguard hresult

theorem EdgeMove.of_claim (h : edge.claimPark name = some next ∨ edge.claimIdle name = some next) :
    EdgeMove subnet edge event next := by
  rcases h with h | h
  · unfold Edge.claimPark at h
    split at h
    · rename_i hentry
      exact .take hentry h
    · cases h
  · unfold Edge.claimIdle at h
    split at h
    · rename_i hentry
      split at h
      · exact .take hentry h
      · cases h
    · cases h

theorem EdgeMove.of_lookUp (h : edge.lookUp id = some next) : EdgeMove subnet edge event next := by
  obtain ⟨park, hpark, h⟩ := bind_eq_some_iff.mp h
  split at h
  · rename_i hpc
    cases h
    refine .park hpark ?_
    split
    · rename_i hentry
      exact .found hpc hentry
    · exact .giveUp (by simp [hpc]) (by simp [hpc])
  · cases h

theorem EdgeMove.of_send (h : edge.send id = some next) : EdgeMove subnet edge event next := by
  obtain ⟨park, hpark, h⟩ := bind_eq_some_iff.mp h
  split at h
  · rename_i target hpc
    obtain ⟨watched, hwatched, h⟩ := bind_eq_some_iff.mp h
    split at h
    · cases h
      exact .park hpark (.giveUp (by simp [hpc]) (by simp [hpc]))
    · rename_i hopen
      split at h
      · cases h
        exact .send hpark hpc hwatched hopen
      · cases h
  · cases h

theorem EdgeMove.of_wait (h : edge.unanswered id = some next ∨ edge.heardEnd id = some next) :
    EdgeMove subnet edge event next := by
  rcases h with h | h
  · obtain ⟨park, hpark, h⟩ := bind_eq_some_iff.mp h
    split at h
    · rename_i target hpc
      split at h
      · rename_i hclosed
        cases h
        refine .park hpark (.giveUp (by simp [hpc]) fun other hother => ?_)
        cases hpc.symm.trans hother
        exact hclosed
      · cases h
    · cases h
  · obtain ⟨park, hpark, h⟩ := bind_eq_some_iff.mp h
    split at h
    · rename_i target hpc
      split at h
      · cases h
        exact .park hpark (.giveUp (by simp [hpc]) (by simp [hpc]))
      · cases h
    · cases h

/-- A supervisor that takes its next message is asked for nothing more by that. -/
theorem EdgeMove.of_deliver (h : edge.deliver task = some next) :
    EdgeMove subnet edge event next := by
  obtain ⟨watched, hwatched, h⟩ := bind_eq_some_iff.mp h
  have hgoesOn {pc inbox}
      (hopen : watched.pc ≠ .closed) (hpc : pc ≠ .closed)
      (hasked : (Watched.asked ⟨pc, inbox, watched.parking⟩).Sublist watched.asked) :
      EdgeMove subnet edge event (edge.setWatch task { watched with pc, inbox }) :=
    .watch hwatched hasked hopen fun hclosed => absurd hclosed hpc
  split at h
  case h_4 id inbox hpc hinbox =>
    -- A park that comes while the VM stops is refused.
    cases h
    refine .answer hwatched ?_ (.inl rfl) (by simp [hpc])
    simp [Watched.asked, hpc, hinbox, Message.asksPark]
  case h_7 => cases h
  all_goals
    rename_i hpc hinbox
    cases h
    refine hgoesOn (by simp [hpc]) (by simp [hpc]) ?_
    simp [Watched.asked, hpc, hinbox, filterMap_cons, Message.asksPark]

theorem EdgeMove.of_parkEnds {how}
    (h : edge.parkEnds task how = some next) : EdgeMove subnet edge event next := by
  obtain ⟨watched, hwatched, h⟩ := bind_eq_some_iff.mp h
  split at h
  · rename_i id hpc
    cases how with
    | parked =>
      cases h
      exact .answer hwatched (by simp [Watched.asked, hpc]) (.inr rfl) (by simp)
    | resumed | lost =>
      cases h
      exact .answer hwatched (by simp [Watched.asked, hpc]) (.inl rfl) (by simp)
  · cases h

theorem EdgeMove.of_supervisor
    (h : (∃ force, edge.stop task force = some next) ∨ edge.vmEnds task = some next ∨
      edge.close task = some next) : EdgeMove subnet edge event next := by
  rcases h with ⟨force, h⟩ | h | h
  · obtain ⟨watched, hwatched, h⟩ := bind_eq_some_iff.mp h
    split at h
    · rename_i hroom
      cases h
      refine .watch hwatched ?_ hroom.1 fun hclosed => absurd hclosed hroom.1
      cases force <;> simp [Watched.asked, filterMap_cons, Message.asksPark]
    · cases h
  · obtain ⟨watched, hwatched, h⟩ := bind_eq_some_iff.mp h
    split at h
    case h_3 => cases h
    all_goals
      rename_i hpc
      cases h
      exact .watch hwatched (by simp [Watched.asked]) (by simp [hpc]) (by simp)
  · obtain ⟨watched, hwatched, h⟩ := bind_eq_some_iff.mp h
    split at h
    · rename_i hpc
      cases h
      exact .watch hwatched (by simp [Watched.asked]) (by simp [hpc]) (by simp)
    · cases h

theorem EdgeMove.of_timeout (h : edge.timeout id = some next) :
    EdgeMove subnet edge (.timeout id) next := by
  obtain ⟨request, hrequest, h⟩ := bind_eq_some_iff.mp h
  split at h
  · obtain ⟨-, ⟨⟩⟩ := ite_none_left_eq_some.mp h
    exact .request (.steps hrequest (.timesOut _))
  · cases h
    exact .request (.steps hrequest (.timesOut _))
  · cases h

theorem EdgeMove.of_woken (h : edge.woken id = some next) :
    EdgeMove subnet edge (.woken id) next := by
  obtain ⟨request, hrequest, h⟩ := bind_eq_some_iff.mp h
  split at h
  · rename_i name task hpc
    obtain ⟨failure, hresult, rfl⟩ := map_eq_some_iff.mp h
    cases failure with
    | none => exact .request (.steps hrequest (.woken hpc hresult))
    | some why => exact .request (.steps hrequest (.failed hpc hresult))
  · cases h

/-- Every step is one of the moves. -/
theorem Edge.move_of_step (h : edge.step subnet event = some next) :
    EdgeMove subnet edge event next := by
  cases event with
  | resolve host =>
    cases h
    exact .request (.arrives host)
  | listen id =>
    obtain ⟨request, hrequest, h⟩ := bind_eq_some_iff.mp h
    obtain ⟨-, rfl⟩ := ite_some_none_eq_some.mp h
    exact .request (.steps hrequest .listens)
  | look id onMachine =>
    obtain ⟨request, hrequest, h⟩ := bind_eq_some_iff.mp h
    obtain ⟨-, rfl⟩ := ite_some_none_eq_some.mp h
    exact .request (.steps hrequest (.looks onMachine))
  | goOn id =>
    obtain ⟨request, hrequest, h⟩ := bind_eq_some_iff.mp h
    split at h
    · obtain ⟨-, rfl⟩ := ite_some_none_eq_some.mp h
      exact .request (.steps hrequest .goesOn)
    · cases h
  | timeout id => exact .of_timeout h
  | hangUp id =>
    cases h
    exact .hangUp id
  | wake id isDir => exact .of_wake h
  | woken id => exact .of_woken h
  | runVm run log =>
    obtain ⟨agent, hagent, h⟩ := bind_eq_some_iff.mp h
    exact .of_runVm (toOption_eq_some hagent) h
  | wakeVm name isDir =>
    obtain ⟨agent, hagent, h⟩ := bind_eq_some_iff.mp h
    have hmove : EdgeMove subnet edge (.wakeVm name isDir)
        { next with requests := edge.requests } :=
      .of_wakeVm (toOption_eq_some hagent) (fun _ _ _ => .apart) rfl h
    rwa [← requests_of_reserve h] at hmove
  | begin task => exact .of_guard (.inl h)
  | finish task how => exact .of_finish h
  | noteWake task => exact .of_guard (.inr h)
  | settle task => exact .of_settle h
  | claimPark name => exact .of_claim (.inl h)
  | parkIdleApps idle =>
    cases h
    exact .takeAll idle
  | beginPark id =>
    obtain ⟨park, hpark, h⟩ := bind_eq_some_iff.mp h
    split at h
    · rename_i hpc
      cases h
      exact .park hpark (.begin hpc)
    · cases h
  | lookUp id => exact .of_lookUp h
  | send id => exact .of_send h
  | unanswered id => exact .of_wait (.inl h)
  | heardEnd id => exact .of_wait (.inr h)
  | release id =>
    obtain ⟨park, hpark, h⟩ := bind_eq_some_iff.mp h
    split at h
    · rename_i hpc
      obtain ⟨watched, hwatched, rfl⟩ := map_eq_some_iff.mp h
      exact .release hpark hpc hwatched
    · cases h
  | settlePark id =>
    obtain ⟨park, hpark, h⟩ := bind_eq_some_iff.mp h
    split at h
    · rename_i hpc
      cases h
      exact .settlePark hpark hpc
    · cases h
  | stop task force => exact .of_supervisor (.inl ⟨force, h⟩)
  | deliver task => exact .of_deliver h
  | parkEnds task how => exact .of_parkEnds h
  | vmEnds task => exact .of_supervisor (.inr (.inl h))
  | close task => exact .of_supervisor (.inr (.inr h))
  | recordEnd task ended =>
    obtain ⟨watched, hwatched, h⟩ := bind_eq_some_iff.mp h
    split at h
    · rename_i hpc
      obtain ⟨agent, hagent, rfl⟩ := map_eq_some_iff.mp h
      obtain ⟨name, hsup, rfl⟩ := vmEnded_eq_some hagent
      exact .recordEnd ended hwatched hpc hsup
    · cases h
  | remove name =>
    obtain ⟨agent, hagent, rfl⟩ := map_eq_some_iff.mp h
    obtain ⟨⟨info, log, hended⟩, rfl⟩ := remove_eq_ok (toOption_eq_some hagent)
    exact .removed hended
  | onMachines event =>
    simp only [step] at h
    split at h
    · rename_i hevent
      obtain ⟨agent, hagent, rfl⟩ := map_eq_some_iff.mp h
      exact .same (sameTasks_of_onMachines hevent hagent).1
    · cases h
  | shutdown =>
    cases h
    exact .same ⟨rfl, rfl, rfl, rfl⟩

/-! ## What a claim takes -/

theorem Edge.take_eq_some (h : edge.take name task = some next) :
    ∃ watched, edge.watches[task]? = some watched ∧ watched.parking = false ∧
      next = { (edge.setWatch task { watched with parking := true }).setPark edge.nextPark
          ⟨name, task, .spawned⟩ with nextPark := edge.nextPark + 1 } := by
  obtain ⟨watched, hwatched, h⟩ := bind_eq_some_iff.mp h
  split at h
  · cases h
  · rename_i hparking
    cases h
    exact ⟨watched, hwatched, by simpa using hparking, rfl⟩

theorem Edge.claimIdle_eq_some (h : edge.claimIdle name = some next) :
    ∃ info log task, edge.agent.vms[name]? = some (.running info log task) ∧
      edge.take name task = some next := by
  unfold claimIdle at h
  split at h
  · rename_i info log task hentry
    split at h
    · exact ⟨info, log, task, hentry, h⟩
    · cases h
  · cases h

/-- What the claims of single VMs keep, a round of the idle parker keeps. -/
theorem Edge.parkIdleApps_induction {p : Edge → Prop} (hinit : p edge)
    (htake : ∀ {edge next name info log task}, p edge →
      edge.agent.vms[name]? = some (.running info log task) → edge.take name task = some next →
        p next) (idle : List Str) : p (edge.parkIdleApps idle) := by
  unfold parkIdleApps
  induction idle generalizing edge with
  | nil => exact hinit
  | cons name idle ih =>
    rw [foldl_cons]
    apply ih
    cases hclaim : edge.claimIdle name with
    | none => exact hinit
    | some next =>
      obtain ⟨info, log, task, hentry, hnext⟩ := claimIdle_eq_some hclaim
      exact htake hinit hentry hnext

theorem Edge.agent_parkIdleApps (idle : List Str) :
    (edge.parkIdleApps idle).agent = edge.agent := by
  refine parkIdleApps_induction (p := fun next => next.agent = edge.agent) rfl ?_ idle
  intro before next name info log task hbefore _ htake
  obtain ⟨watched, -, -, rfl⟩ := take_eq_some htake
  exact hbefore

theorem Edge.agent_answer (edge : Edge) (id : Nat) (pc : ParkPc) :
    (edge.answer id pc).agent = edge.agent := by
  unfold answer
  split <;> rfl

/-- What a step of the edge does to the table and its tasks, the agent can do. -/
theorem EdgeMove.agentMove (h : EdgeMove subnet edge event next) :
    AgentMove subnet edge.agent next.agent := by
  have hsame : AgentMove subnet edge.agent edge.agent := .same ⟨rfl, rfl, rfl, rfl⟩
  cases h with
  | reserve hreserves => exact .reserved hreserves
  | ended _ _ hend => exact .launchEnded hend
  | launched hguard hlaunch => exact .launched _ hlaunch
  | take hentry htake =>
    obtain ⟨watched, -, -, rfl⟩ := Edge.take_eq_some htake
    exact hsame
  | takeAll idle =>
    rw [Edge.agent_parkIdleApps]
    exact hsame
  | answer =>
    show AgentMove subnet edge.agent (edge.answer _ _).agent
    rw [Edge.agent_answer]
    exact hsame
  | recordEnd ended hwatched hpc hsup => exact .vmEnded ended hsup
  | removed hended => exact .removed hended
  | same hsame => exact .same hsame
  | request | hangUp | guard | settle | park | send | release | settlePark | watch => exact hsame

end

end Cirrocumulus.Node
