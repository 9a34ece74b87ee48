/-
# Held requests are told

A request that finds an App starting, or being parked, waits to be told that something
has settled. It listens before it looks, and the task that it waits for tells everyone
who listens only after it has changed the table and released its claim. So a request that
waits and was not told yet waits for a task that is still there.
-/

import Cirrocumulus.Node.Claims
import Cirrocumulus.Node.Hostnames

namespace Cirrocumulus.Node

open Std (ExtTreeMap)
open Lib

variable {task : Nat} {guard : Guard} {name : Str}

/-- A task that has yet to drop its guard works for the App that a request waits for. -/
def Edge.Unsettled (edge : Edge) (name : Str) : Holding → Prop
  | .start => ∃ (task : Nat) (guard : Guard), edge.guards[task]? = some guard ∧ guard.name = name
  | .park => ∃ (id : Nat) (park : Park), edge.parks[id]? = some park ∧ park.name = name

/-- Every request that waits and was not told waits for a task that is still there. -/
def Edge.NobodyForgotten (edge : Edge) : Prop :=
  ∀ (id : Nat) (request : EdgeRequest), edge.requests[id]? = some request →
    ∀ name holding, request.pc = .hold name holding → request.notified = false →
      edge.Unsettled name holding

/-- Whoever listens is told by the step. -/
def Edge.TellsAll (edge next : Edge) : Prop :=
  ∀ (id : Nat) (request : EdgeRequest), edge.requests[id]? = some request →
    request.listening = true → ∃ told, next.requests[id]? = some told ∧ told.notified = true

/-- A step that a start, wake or park settles with comes after its other changes, and
tells everyone who listens. -/
structure Edge.SettlesLast (edge next : Edge) : Prop where
  guard : ∀ (task : Nat) (guard : Guard), edge.guards[task]? = some guard →
    next.guards[task]? = none → edge.agent.launches[task]? = none ∧ edge.TellsAll next
  park : ∀ (id : Nat) (park : Park), edge.parks[id]? = some park →
    next.parks[id]? = none → park.holds = false ∧ edge.TellsAll next

/-! ## Guards -/

/-- Claims are taken, and nothing else changes. -/
structure Edge.OnlyClaims (edge next : Edge) : Prop where
  agent : next.agent = edge.agent
  guards : next.guards = edge.guards
  requests : next.requests = edge.requests
  parks : ∀ {id : Nat} {park}, edge.parks[id]? = some park → next.parks[id]? = some park

namespace Edge.OnlyClaims

variable {edge next : Edge}

theorem take (hclaimed : edge.Claimed)
    (htake : edge.take name task = some next) : edge.OnlyClaims next := by
  obtain ⟨watched, -, -, rfl⟩ := take_eq_some htake
  refine ⟨rfl, rfl, rfl, ?_⟩
  intro id park hpark
  have hne : id ≠ edge.nextPark := (hclaimed.park_lt hpark).ne
  simp only [setPark, lookup_insert, if_neg hne]
  exact hpark

theorem takeAll (hclaimed : edge.Claimed) (idle : List Str) :
    edge.OnlyClaims (edge.parkIdleApps idle) := by
  have hinit : edge.Claimed ∧ edge.OnlyClaims edge := ⟨hclaimed, rfl, rfl, rfl, id⟩
  refine (parkIdleApps_induction (p := fun next => next.Claimed ∧ edge.OnlyClaims next)
    hinit ?_ idle).2
  rintro before next name info log task ⟨hbefore, hadds⟩ hentry htake
  have hthis : before.OnlyClaims next := take hbefore htake
  exact ⟨hbefore.take hentry htake, hthis.agent.trans hadds.agent,
    hthis.guards.trans hadds.guards, hthis.requests.trans hadds.requests,
    fun hpark => hthis.parks (hadds.parks hpark)⟩

end Edge.OnlyClaims

/-- Each start or wake that may still change the table has a guard to drop. -/
structure Edge.Guarded (edge : Edge) : Prop where
  launch : ∀ {task : Nat} {launch}, edge.agent.launches[task]? = some launch →
    ∃ guard, edge.guards[task]? = some guard ∧ guard.name = launch.name ∧
      (guard.pc = .spawned ∨ guard.pc = .working)
  lt : ∀ {task : Nat} {guard}, edge.guards[task]? = some guard → task < edge.agent.nextTask

namespace Edge.Guarded

variable {subnet : Subnet} {edge next : Edge} {event : EdgeEvent} (h : edge.Guarded)
include h

/-- No start or wake is reserved, and the guards stay. -/
theorem of_launches (hguards : next.guards = edge.guards)
    (hlaunches : next.agent.launches = edge.agent.launches)
    (hle : edge.agent.nextTask ≤ next.agent.nextTask) : next.Guarded where
  launch := by
    rw [hguards, hlaunches]
    exact h.launch
  lt := by
    rw [hguards]
    exact fun hguard => (h.lt hguard).trans_le hle

section

theorem reserve (launch : Launch) (hlaunches : next.agent.launches =
      edge.agent.launches.insert edge.agent.nextTask launch) (hguards : next.guards =
      edge.guards.insert edge.agent.nextTask ⟨launch.name, launch.isWake, .spawned⟩)
    (hnext : next.agent.nextTask = edge.agent.nextTask + 1) : next.Guarded where
  launch := by
    intro task found hfound
    rw [hlaunches, lookup_insert] at hfound
    rw [hguards, lookup_insert]
    by_cases heq : task = edge.agent.nextTask
    · rw [if_pos heq] at hfound
      cases hfound
      exact ⟨_, if_pos heq, rfl, .inl rfl⟩
    · rw [if_neg heq] at hfound ⊢
      exact h.launch hfound
  lt := by
    intro task guard hguard
    rw [hguards, lookup_insert] at hguard
    rw [hnext]
    split at hguard
    · omega
    · exact (h.lt hguard).trans (Nat.lt_succ_self _)

variable (hguard : edge.guards[task]? = some guard)
include hguard

/-- A start or wake that is done with the table has no launch any more. -/
theorem launch_eq_none (hpc : guard.pc ≠ .spawned ∧ guard.pc ≠ .working) :
    edge.agent.launches[task]? = none := by
  cases hlaunch : edge.agent.launches[task]? with
  | none => rfl
  | some launch =>
    obtain ⟨found, hfound, -, hearly⟩ := h.launch hlaunch
    cases hguard.symm.trans hfound
    rcases hearly with hearly | hearly
    · exact absurd hearly hpc.1
    · exact absurd hearly hpc.2

/-- The launch `task` is over, and its guard goes on. -/
theorem ended {guard'} (hlaunches : next.agent.launches = edge.agent.launches.erase task)
    (hguards : next.guards = edge.guards.insert task guard')
    (hle : edge.agent.nextTask ≤ next.agent.nextTask) : next.Guarded where
  launch := by
    intro other launch hlaunch
    rw [hlaunches, lookup_erase] at hlaunch
    rw [hguards, lookup_insert]
    by_cases heq : other = task
    · rw [if_pos heq] at hlaunch
      cases hlaunch
    · rw [if_neg heq] at hlaunch ⊢
      exact h.launch hlaunch
  lt := by
    intro other found hfound
    rw [hguards] at hfound
    exact forall_insert ((h.lt hguard).trans_le hle) (fun hfound => (h.lt hfound).trans_le hle)
      hfound

theorem setGuard (pc : GuardPc) (hpc : guard.pc = .spawned ∧ pc = .working ∨
      ∃ failure, guard.pc = .finished failure ∧ pc = .noted failure) :
    (edge.setGuard task { guard with pc }).Guarded where
  launch := by
    intro other launch hlaunch
    obtain ⟨found, hfound, hname, hearly⟩ := h.launch hlaunch
    simp only [Edge.setGuard, lookup_insert]
    by_cases heq : other = task
    · subst heq
      cases hguard.symm.trans hfound
      refine ⟨_, if_pos rfl, hname, ?_⟩
      rcases hpc with ⟨-, hpc⟩ | ⟨failure, hpc, -⟩
      · exact .inr hpc
      · rw [hpc] at hearly
        rcases hearly with hearly | hearly <;> cases hearly
    · exact ⟨found, by rw [if_neg heq, hfound], hname, hearly⟩
  lt := fun hfound => forall_insert (h.lt hguard) h.lt hfound

theorem settle (hpc : guard.pc ≠ .spawned ∧ guard.pc ≠ .working)
    (hguards : next.guards = edge.guards.erase task) (hagent : next.agent = edge.agent) :
    next.Guarded where
  launch := by
    intro other launch hlaunch
    rw [hagent] at hlaunch
    have hne : other ≠ task := by
      rintro rfl
      rw [h.launch_eq_none hguard hpc] at hlaunch
      cases hlaunch
    rw [hguards, lookup_erase, if_neg hne]
    exact h.launch hlaunch
  lt := by
    intro other found hfound
    rw [hguards, lookup_erase] at hfound
    rw [hagent]
    split at hfound
    · cases hfound
    · exact h.lt hfound

end

theorem of_onlyClaims (honly : edge.OnlyClaims next) : next.Guarded :=
  h.of_launches honly.guards (congrArg Agent.launches honly.agent)
    (congrArg Agent.nextTask honly.agent).ge

theorem of_move (hclaimed : edge.Claimed)
    (hmove : EdgeMove subnet edge event next) : next.Guarded := by
  cases hmove with
  | request | hangUp | park | send | release | settlePark | watch | recordEnd | removed =>
    exact h.of_launches rfl rfl le_rfl
  | reserve => exact h.reserve _ rfl rfl rfl
  | guard hguard pc hpc => exact (h.setGuard hguard pc hpc).of_launches rfl rfl le_rfl
  | ended hguard _ hend =>
    refine h.ended hguard ?_ rfl ?_
    · rw [hend.next_eq]
      rfl
    · rw [hend.next_eq]
      exact le_rfl
  | launched hguard hlaunch => exact h.ended hguard rfl rfl (Nat.le_succ _)
  | settle hguard hresult => exact h.settle hguard (Edge.Guard.over_of_result hresult) rfl rfl
  | take hentry htake => exact h.of_onlyClaims (.take hclaimed htake)
  | takeAll idle => exact h.of_onlyClaims (.takeAll hclaimed idle)
  | @answer event task id watched pc inbox parkPc =>
    have hset : (edge.answer id parkPc).guards = edge.guards ∧
        (edge.answer id parkPc).agent = edge.agent := by
      unfold Edge.answer
      split <;> exact ⟨rfl, rfl⟩
    exact h.of_launches hset.1 (congrArg Agent.launches hset.2)
      (congrArg Agent.nextTask hset.2).ge
  | same hsame => exact h.of_launches rfl hsame.2.1 hsame.2.2.2.ge

end Edge.Guarded

/-! ## What a step leaves -/

/-- No task drops its guard, and a request that waits has waited before or has just found
what it waits for. -/
structure Edge.Stays (edge next : Edge) : Prop where
  guard : ∀ {task : Nat} {guard}, edge.guards[task]? = some guard →
    ∃ guard', next.guards[task]? = some guard' ∧ guard'.name = guard.name
  park : ∀ {id : Nat} {park}, edge.parks[id]? = some park →
    ∃ park', next.parks[id]? = some park' ∧ park'.name = park.name
  request : ∀ {id : Nat} {request}, next.requests[id]? = some request →
    edge.requests[id]? = some request ∨
      ∀ name holding, request.pc = .hold name holding → edge.Finds name holding

namespace Edge.Stays

variable {edge next : Edge}

theorem refl (edge : Edge) : edge.Stays edge where
  guard := fun hguard => ⟨_, hguard, rfl⟩
  park := fun hpark => ⟨_, hpark, rfl⟩
  request := .inl

theorem of_setGuard (hguard : edge.guards[task]? = some guard)
    (pc : GuardPc) (hguards : next.guards = edge.guards.insert task { guard with pc })
    (hparks : next.parks = edge.parks) (hrequests : next.requests = edge.requests) :
    edge.Stays next where
  guard := by
    intro other found hfound
    rw [hguards, lookup_insert]
    by_cases heq : other = task
    · subst heq
      cases hguard.symm.trans hfound
      exact ⟨_, if_pos rfl, rfl⟩
    · exact ⟨found, by rw [if_neg heq, hfound], rfl⟩
  park := by
    rw [hparks]
    exact fun hpark => ⟨_, hpark, rfl⟩
  request := by
    rw [hrequests]
    exact .inl

theorem of_setPark {id park} (hpark : edge.parks[id]? = some park)
    (pc : ParkPc) (hparks : next.parks = edge.parks.insert id { park with pc })
    (hguards : next.guards = edge.guards) (hrequests : next.requests = edge.requests) :
    edge.Stays next where
  guard := by
    rw [hguards]
    exact fun hguard => ⟨_, hguard, rfl⟩
  park := by
    intro other found hfound
    rw [hparks, lookup_insert]
    by_cases heq : other = id
    · subst heq
      cases hpark.symm.trans hfound
      exact ⟨_, if_pos rfl, rfl⟩
    · exact ⟨found, by rw [if_neg heq, hfound], rfl⟩
  request := by
    rw [hrequests]
    exact .inl

theorem of_eq (hguards : next.guards = edge.guards) (hparks : next.parks = edge.parks)
    (hrequests : next.requests = edge.requests) : edge.Stays next where
  guard := by
    rw [hguards]
    exact fun hguard => ⟨_, hguard, rfl⟩
  park := by
    rw [hparks]
    exact fun hpark => ⟨_, hpark, rfl⟩
  request := by
    rw [hrequests]
    exact .inl

theorem of_onlyClaims (honly : edge.OnlyClaims next) : edge.Stays next where
  guard := by
    rw [honly.guards]
    exact fun hguard => ⟨_, hguard, rfl⟩
  park := fun hpark => ⟨_, honly.parks hpark, rfl⟩
  request := by
    rw [honly.requests]
    exact .inl

theorem unsettled (h : edge.Stays next) {holding}
    (hunsettled : edge.Unsettled name holding) : next.Unsettled name holding := by
  cases holding with
  | start =>
    obtain ⟨task, guard, hguard, rfl⟩ := hunsettled
    obtain ⟨guard', hguard', hname⟩ := h.guard hguard
    exact ⟨task, guard', hguard', hname⟩
  | park =>
    obtain ⟨id, park, hpark, rfl⟩ := hunsettled
    obtain ⟨park', hpark', hname⟩ := h.park hpark
    exact ⟨id, park', hpark', hname⟩

end Edge.Stays

section

variable {subnet : Subnet} {edge next : Edge} {event : EdgeEvent}

/-- A step leaves the tasks and those who wait for them, or one task settles. -/
inductive Edge.Settling (edge : Edge) : Edge → Prop
  | nobody {next : Edge} (hstays : edge.Stays next) : Settling edge next
  | guard {task : Nat} {guard results} (hguard : edge.guards[task]? = some guard)
      (hpc : guard.pc ≠ .spawned ∧ guard.pc ≠ .working) :
      Settling edge { edge with guards := edge.guards.erase task, results }.notifyWaiters
  | park {id park} (hpark : edge.parks[id]? = some park) (hpc : park.pc = .settle) :
      Settling edge { edge with parks := edge.parks.erase id }.notifyWaiters

theorem EdgeMove.settling (hclaimed : edge.Claimed) (hguarded : edge.Guarded)
    (hmove : EdgeMove subnet edge event next) : edge.Settling next := by
  cases hmove with
  | request hmove =>
    refine .nobody ⟨(Edge.Stays.refl edge).guard, (Edge.Stays.refl edge).park, ?_⟩
    intro other found hfound
    obtain ⟨-, rfl⟩ | ⟨-, hfound⟩ := of_lookup_insert hfound
    · exact .inr fun name holding hhold => hmove.finds hhold
    · exact .inl hfound
  | hangUp id =>
    refine .nobody ⟨(Edge.Stays.refl edge).guard, (Edge.Stays.refl edge).park, ?_⟩
    intro other found hfound
    exact .inl (of_lookup_erase hfound).2
  | reserve hreserves hasks =>
    refine .nobody ⟨?_, (Edge.Stays.refl edge).park, ?_⟩
    · intro task guard hguard
      have hne : task ≠ edge.agent.nextTask := (hguarded.lt hguard).ne
      exact ⟨guard, by rw [lookup_insert, if_neg hne, hguard], rfl⟩
    · intro id request hrequest
      by_cases hhold : ∃ name holding, request.pc = .hold name holding
      · obtain ⟨name, holding, hhold⟩ := hhold
        exact .inl (hasks.unheld hrequest hhold)
      · exact .inr fun name holding hpc => absurd ⟨name, holding, hpc⟩ hhold
  | guard hguard pc hpc => exact .nobody (.of_setGuard hguard pc rfl rfl rfl)
  | ended hguard _ | launched hguard => exact .nobody (.of_setGuard hguard _ rfl rfl rfl)
  | settle hguard hresult => exact .guard hguard (Edge.Guard.over_of_result hresult)
  | take hentry htake => exact .nobody (.of_onlyClaims (.take hclaimed htake))
  | takeAll idle => exact .nobody (.of_onlyClaims (.takeAll hclaimed idle))
  | park hpark | send hpark | release hpark => exact .nobody (.of_setPark hpark _ rfl rfl rfl)
  | settlePark hpark hpc => exact .park hpark hpc
  | @answer event task id watched pc inbox parkPc hwatched hasked =>
    obtain ⟨park, hpark, -⟩ := (hclaimed.asked hwatched).2 id (hasked.subset List.mem_cons_self)
    have hset : edge.answer id parkPc = edge.setPark id { park with pc := parkPc } := by
      simp only [Edge.answer, hpark]
    rw [hset]
    exact .nobody (.of_setPark hpark parkPc rfl rfl rfl)
  | watch | recordEnd | removed | same => exact .nobody (.of_eq rfl rfl rfl)

/-- What a request finds to wait for is the work of a task that has yet to settle. -/
theorem Edge.Finds.unsettled {holding} (h : edge.Finds name holding)
    (hclaimed : edge.Claimed) (hguarded : edge.Guarded) : edge.Unsettled name holding := by
  cases holding with
  | start =>
    obtain ⟨vmAddress, log, route, hentry⟩ := h
    obtain ⟨task, launch, hlaunch, rfl⟩ := hclaimed.owned.starting_launch hentry
    obtain ⟨guard, hguard, hname, -⟩ := hguarded.launch hlaunch
    exact ⟨task, guard, hguard, hname⟩
  | park =>
    obtain ⟨info, log, task, hentry, hparking⟩ := h
    obtain ⟨id, park, hpark, hholds, rfl⟩ := (hclaimed.claims.mem (b := ())).mp hparking
    have hsup := hclaimed.owned.running_supervisor hentry
    exact ⟨id, park, hpark, (hclaimed.name hpark hholds hsup).symm⟩

theorem Edge.tellsAll_notifyWaiters {other : Edge} (h : other.requests = edge.requests) :
    edge.TellsAll other.notifyWaiters := by
  intro id request hrequest hlistening
  refine ⟨{ request with notified := request.notified || request.listening }, ?_, ?_⟩
  · simp only [notifyWaiters, ExtTreeMap.getElem?_map, h, hrequest, Option.map_some]
  · rw [hlistening, Bool.or_true]

/-- Whoever is told and still waits was told just now. -/
theorem Edge.nobodyForgotten_notifyWaiters (other : Edge) :
    other.notifyWaiters.NobodyForgotten := by
  intro id request hrequest name holding hpc hnotified
  simp only [notifyWaiters, ExtTreeMap.getElem?_map, Option.map_eq_some_iff] at hrequest
  obtain ⟨before, -, rfl⟩ := hrequest
  have hbefore : before.pc = .hold name holding := hpc
  simp [EdgeRequest.listening, hbefore] at hnotified

theorem Edge.NobodyForgotten.of_settling (h : edge.NobodyForgotten) (hclaimed : edge.Claimed)
    (hguarded : edge.Guarded) (hsettling : edge.Settling next) : next.NobodyForgotten := by
  cases hsettling with
  | nobody hstays =>
    intro id request hrequest name holding hpc hnotified
    apply hstays.unsettled
    rcases hstays.request hrequest with hold | hfinds
    · exact h id request hold name holding hpc hnotified
    · exact (hfinds name holding hpc).unsettled hclaimed hguarded
  | guard | park => exact nobodyForgotten_notifyWaiters _

theorem Edge.Settling.settlesLast (h : edge.Settling next) (hguarded : edge.Guarded) :
    edge.SettlesLast next := by
  cases h with
  | nobody hstays =>
    refine ⟨?_, ?_⟩
    · intro task guard hguard hgone
      obtain ⟨guard', hguard', -⟩ := hstays.guard hguard
      cases hgone.symm.trans hguard'
    · intro id park hpark hgone
      obtain ⟨park', hpark', -⟩ := hstays.park hpark
      cases hgone.symm.trans hpark'
  | @guard task guard results hguard hpc =>
    refine ⟨?_, ?_⟩
    · intro other found hfound hgone
      have herased : (edge.guards.erase task)[other]? = none := hgone
      rw [lookup_erase] at herased
      split at herased
      · rename_i heq
        rw [heq]
        exact ⟨hguarded.launch_eq_none hguard hpc, tellsAll_notifyWaiters rfl⟩
      · cases hfound.symm.trans herased
    · intro id park hpark hgone
      cases hpark.symm.trans hgone
  | @park id park hpark hpc =>
    refine ⟨?_, ?_⟩
    · intro task guard hguard hgone
      cases hguard.symm.trans hgone
    · intro other found hfound hgone
      have herased : (edge.parks.erase id)[other]? = none := hgone
      rw [lookup_erase] at herased
      split at herased
      · rename_i heq
        rw [heq] at hfound
        cases hpark.symm.trans hfound
        exact ⟨by simp [Park.holds, hpc], tellsAll_notifyWaiters rfl⟩
      · cases hfound.symm.trans herased

end

/-- However an agent starts, and however its requests, starts, wakes and parks are
scheduled: a request that waits and was not told waits for an App whose start, wake or park
has yet to settle, and whatever settles has changed the table and released its claim
before it tells everyone who listens. -/
theorem no_held_request_misses_its_wakeup (subnet : Subnet)
    (isRunning : Ipv4Addr → ProcessId → Bool) (now : Nat) (rows : Rows) (machines : Machines)
    {start : Agent} {edge : Edge} {schedule : List EdgeEvent}
    (hstart : Agent.empty.reconcile isRunning now rows.load = some start)
    (hrun : run (Edge.step subnet) (.new { start with machines }) schedule = some edge) :
    edge.NobodyForgotten ∧
      ∀ event next, edge.step subnet event = some next → edge.SettlesLast next := by
  have hopen : Owned { start with machines } := .start hstart machines
  have hlaunches : start.launches = ∅ := (launches_reconcile hstart).trans rfl
  have hguarded : (Edge.new { start with machines }).Guarded :=
    ⟨by simp [Edge.new, hlaunches], by simp [Edge.new]⟩
  have hnobody : (Edge.new { start with machines }).NobodyForgotten := by
    simp [Edge.NobodyForgotten, Edge.new]
  have hkeep {edge next : Edge} {event : EdgeEvent}
      (hinv : edge.Claimed ∧ edge.Guarded ∧ edge.NobodyForgotten)
      (hstep : edge.step subnet event = some next) :
      next.Claimed ∧ next.Guarded ∧ next.NobodyForgotten := by
    obtain ⟨hclaimed, hguarded, hnobody⟩ := hinv
    have hmove := Edge.move_of_step hstep
    exact ⟨hclaimed.of_move hmove, hguarded.of_move hclaimed hmove,
      hnobody.of_settling hclaimed hguarded (hmove.settling hclaimed hguarded)⟩
  obtain ⟨hclaimed, hguarded, hnobody⟩ :=
    run_preserves_all hkeep ⟨.new hopen, hguarded, hnobody⟩ hrun
  refine ⟨hnobody, fun event next hstep => ?_⟩
  exact ((Edge.move_of_step hstep).settling hclaimed hguarded).settlesLast hguarded

/-- The theorem applies: a request comes for an App that is starting, and waits. -/
theorem nobodyForgotten_while_starting :
    ∃ edge request, run (Edge.step .sample) (.new .empty)
        [.runVm (.sample "web" (some (.sample "web.example"))) "web.log",
          .resolve "web.example", .listen 0, .look 0 none] = some edge ∧
      edge.requests[0]? = some request ∧ request.pc = .hold "web" .start ∧
      request.notified = false ∧ edge.NobodyForgotten := by
  obtain ⟨edge, hrun, request, hrequest, hpc, hwaits⟩ : ∃ edge,
      run (Edge.step .sample) (.new .empty)
        [.runVm (.sample "web" (some (.sample "web.example"))) "web.log",
          .resolve "web.example", .listen 0, .look 0 none] = some edge ∧
      ∃ request, edge.requests[0]? = some request ∧ request.pc = .hold "web" .start ∧
        request.notified = false := by
    decide +kernel
  exact ⟨edge, request, hrun, hrequest, hpc, hwaits,
    (no_held_request_misses_its_wakeup .sample (fun _ _ => false) 0 ∅ ∅ reconcile_nothing hrun).1⟩

end Cirrocumulus.Node
