/-
# Why a request is told that its App is unavailable

A request for a parked App wakes it, one for a starting App waits for the start, and one
for an App that is being parked waits for that and then wakes it. So a request should see
latency and no error unless something went wrong.

What a request remembers is that it has waited for a start or tried a wake. From finding
the App parked after that it infers that the wake failed. The inference is right as long
as the App is not parked anew in between: then an App that a request has waited for is
parked only because a wake of it failed, or could not be done.
-/

import Cirrocumulus.Node.RequestSteps

namespace Cirrocumulus.Node

open Std (ExtTreeMap)
open Lib Option

variable {name host found : Str} {task : Nat} {event : EdgeEvent} {agent agent' : Agent}

section

variable {subnet : Subnet} {edge next : Edge}

/-! ## What holds of the table and the tasks -/

/-- A start that fails puts no parked VM back, and a task that has a result was spawned
before. -/
structure Edge.Kept (edge : Edge) : Prop where
  claimed : edge.Claimed
  guarded : edge.Guarded
  unparked : ∀ {task : Nat} {launch}, edge.agent.launches[task]? = some launch →
    ∀ old, launch.kind = .start (some old) → isParked old.info = false
  result_lt : ∀ {task : Nat} {failure}, edge.results[task]? = some failure →
    task < edge.agent.nextTask

/-- A start or wake that is done with the table has ended its launch. -/
theorem Edge.launches_of_finished {isWake how} (h : edge.finished task isWake how = some agent) :
    agent.launches = edge.agent.launches.erase task ∧ edge.agent.nextTask ≤ agent.nextTask := by
  cases how with
  | launched startedAt =>
    obtain ⟨launch, -, rfl⟩ := launched_eq_some h
    exact ⟨rfl, Nat.le_succ _⟩
  | failed error =>
    simp only [finished] at h
    split at h
    · obtain ⟨launch, hend⟩ := wakeFailed_eq_some h
      rw [hend.next_eq]
      exact ⟨rfl, le_rfl⟩
    · obtain ⟨launch, hend⟩ := startFailed_eq_some h
      rw [hend.next_eq]
      exact ⟨rfl, le_rfl⟩
  | lost time error =>
    obtain ⟨launch, parked, -, hend⟩ := wakeLost_eq_some h
    rw [hend.next_eq]
    exact ⟨rfl, le_rfl⟩

theorem Edge.Kept.of_step (h : edge.Kept)
    (hstep : edge.step subnet event = some next) : next.Kept := by
  have hmove := move_of_step hstep
  -- the last two fields, for a step that ends or leaves the launches
  have hkeep (hlaunches : ∀ task launch, next.agent.launches[task]? = some launch →
        edge.agent.launches[task]? = some launch)
      (hresults : next.results = edge.results)
      (hle : edge.agent.nextTask ≤ next.agent.nextTask) : next.Kept :=
    { claimed := h.claimed.of_move hmove
      guarded := h.guarded.of_move h.claimed hmove
      unparked := fun hlaunch => h.unparked (hlaunches _ _ hlaunch)
      result_lt := fun hresult => (h.result_lt (hresults ▸ hresult)).trans_le hle }
  have hreserves {launch} (hreserves : edge.Reserves launch next) : next.Kept :=
    { claimed := h.claimed.of_move hmove
      guarded := h.guarded.of_move h.claimed hmove
      unparked := by
        intro task found hfound
        rw [hreserves.agent, Agent.reserve, Agent.spawnLaunch, lookup_insert] at hfound
        split at hfound
        · cases hfound
          exact hreserves.unparked
        · exact h.unparked hfound
      result_lt := by
        intro task failure hresult
        rw [hreserves.results] at hresult
        rw [hreserves.agent]
        exact (h.result_lt hresult).trans (Nat.lt_succ_self _) }
  cases (move_of_step hstep).seen with
  | apart happart =>
    exact hkeep (fun _ _ hlaunch => happart.agent ▸ hlaunch) happart.results
      (happart.agent ▸ le_rfl)
  | arrives | hangsUp | request | guards | removes => exact hkeep (fun _ _ => id) rfl le_rfl
  | reserves hres | wakes _ _ _ hres => exact hreserves hres
  | finishes hguard hagent =>
    obtain ⟨hlaunches, hle⟩ := launches_of_finished hagent
    refine hkeep (fun task launch hlaunch => ?_) rfl hle
    have hfound : _ = some launch := hlaunches ▸ hlaunch
    exact (of_lookup_erase hfound).2
  | settles hguard hresult =>
    refine ⟨h.claimed.of_move hmove, h.guarded.of_move h.claimed hmove, h.unparked, ?_⟩
    intro task failure hfound
    exact forall_insert (h.guarded.lt hguard) h.result_lt hfound
  | recordsEnd hagent =>
    obtain ⟨name, -, rfl⟩ := vmEnded_eq_some hagent
    exact hkeep (fun _ _ => id) rfl le_rfl
  | same hsame =>
    exact hkeep (fun task launch hlaunch => hsame.2.1 ▸ hlaunch) rfl hsame.2.2.2.ge

/-! ## Parked Apps, and the wakes a request waits for -/

/-- The App is parked. -/
def Edge.isParkedApp (edge : Edge) (name : Str) : Bool :=
  edge.agent.vms[name]?.any fun
    | .ended info _ => isParked info
    | _ => false

/-- A wake of the App fails. -/
def Edge.failsWake (edge : Edge) (name : Str) : EdgeEvent → Bool
  | .finish task (.failed _) | .finish task (.lost _ _) =>
    edge.guards[task]?.any fun guard => guard.isWake && guard.name == name
  | _ => false

/-- A park of the App completes: its end is recorded. -/
def Edge.completesPark (edge : Edge) (name : Str) : EdgeEvent → Bool
  | .recordEnd task ended =>
    ended.reason == .parked && edge.agent.supervisors[task]? == some name
  | _ => false

theorem Edge.isParkedApp_iff : edge.isParkedApp name ↔
    ∃ info log, edge.agent.vms[name]? = some (.ended info log) ∧ isParked info := by
  unfold isParkedApp
  rw [any_eq_true]
  constructor
  · rintro ⟨entry, hentry, hparked⟩
    cases entry with
    | ended info log => exact ⟨info, log, hentry, hparked⟩
    | _ => cases hparked
  · rintro ⟨info, log, hentry, hparked⟩
    exact ⟨_, hentry, hparked⟩

/-- Whether an App is parked depends on its entry alone. -/
theorem Edge.isParkedApp_congr (h : next.agent.vms[name]? = edge.agent.vms[name]?) :
    next.isParkedApp name = edge.isParkedApp name := by
  rw [isParkedApp, h, isParkedApp]

theorem startFailed_kind (h : agent.startFailed task = some agent') :
    ∃ launch replaced, agent.launches[task]? = some launch ∧ launch.kind = .start replaced := by
  unfold Agent.startFailed at h
  split at h
  · rename_i replaced hlaunch
    exact ⟨_, replaced, hlaunch, rfl⟩
  · cases h

/-- A start or wake that is over leaves its App parked only if it was a wake that failed. -/
theorem Edge.Kept.isParkedApp_finished (h : edge.Kept) {how guard watches}
    (hguard : edge.guards[task]? = some guard)
    (hagent : edge.finished task guard.isWake how = some agent)
    (hparked : isParkedApp { edge.setGuard task
      { guard with pc := .finished (Edge.Guard.failure guard how) } with agent, watches } name =
        true) : edge.isParkedApp name ∨ edge.failsWake name (.finish task how) := by
  obtain ⟨info, log, hentry, hinfo⟩ := isParkedApp_iff.mp hparked
  have hentry' : agent.vms[name]? = some (.ended info log) := hentry
  have hbefore (hold : edge.agent.vms[name]? = some (.ended info log)) :
      edge.isParkedApp name := isParkedApp_iff.mpr ⟨info, log, hold, hinfo⟩
  cases how with
  | launched startedAt =>
    obtain ⟨launch, -, rfl⟩ := launched_eq_some hagent
    rw [lookup_launched] at hentry'
    split at hentry'
    · cases hentry'
    · exact .inl (hbefore hentry')
  | lost time error =>
    obtain ⟨launch, parked, -, hend⟩ := wakeLost_eq_some hagent
    rw [hend.vms_eq] at hentry'
    split at hentry'
    · cases hentry'
      cases hinfo
    · exact .inl (hbefore hentry')
  | failed error =>
    cases hwake : guard.isWake with
    | true =>
      rw [hwake] at hagent
      obtain ⟨launch, hend⟩ := wakeFailed_eq_some hagent
      rw [hend.vms_eq] at hentry'
      split at hentry'
      · rename_i heq
        obtain ⟨found, hfound, hname, -⟩ := h.guarded.launch hend.launch_eq
        cases hguard.symm.trans hfound
        refine .inr ?_
        simp [failsWake, hguard, hwake, hname, heq]
      · exact .inl (hbefore hentry')
    | false =>
      rw [hwake] at hagent
      obtain ⟨launch, hend⟩ := startFailed_eq_some hagent
      obtain ⟨found, replaced, hfound, hkind⟩ := startFailed_kind hagent
      cases hend.launch_eq.symm.trans hfound
      rw [hend.vms_eq] at hentry'
      split at hentry'
      · -- what a start puts back was not parked
        rw [Launch.setAside, hkind] at hentry'
        obtain ⟨old, hold, hended⟩ := map_eq_some_iff.mp hentry'
        have hunparked := h.unparked hfound old (hkind.trans (congrArg _ hold))
        cases hended
        cases hunparked.symm.trans hinfo
      · exact .inl (hbefore hentry')

/-- An App that a step leaves parked was parked before, or a wake of it has failed, or it
has just been parked. -/
theorem Edge.Kept.isParkedApp_of_step (h : edge.Kept)
    (hstep : edge.step subnet event = some next) (hparked : next.isParkedApp name) :
    edge.isParkedApp name ∨ edge.failsWake name event ∨
      edge.completesPark name event := by
  have hreserves {launch} (hreserves : edge.Reserves launch next) :
      edge.isParkedApp name := by
    obtain ⟨info, log, hentry, hinfo⟩ := isParkedApp_iff.mp hparked
    rw [hreserves.agent] at hentry
    obtain ⟨-, ⟨⟩⟩ | ⟨-, hentry⟩ := of_lookup_insert hentry
    exact isParkedApp_iff.mpr ⟨info, log, hentry, hinfo⟩
  cases (move_of_step hstep).seen with
  | apart happart =>
    have hvms : next.agent.vms[name]? = edge.agent.vms[name]? := by rw [happart.agent]
    exact .inl ((isParkedApp_congr hvms).symm.trans hparked)
  | arrives | hangsUp | request | guards | settles => exact .inl hparked
  | reserves hres | wakes _ _ _ hres => exact .inl (hreserves hres)
  | finishes hguard hagent =>
    rcases h.isParkedApp_finished hguard hagent hparked with hbefore | hfails
    · exact .inl hbefore
    · exact .inr (.inl hfails)
  | recordsEnd hagent =>
    obtain ⟨owner, hsup, rfl⟩ := vmEnded_eq_some hagent
    obtain ⟨info, log, hrunning, -⟩ := h.claimed.owned.supervisor_entry hsup
    obtain ⟨found, foundLog, hentry, hinfo⟩ := isParkedApp_iff.mp hparked
    have hentry' := (lookup_recordEnd hrunning _ name).symm.trans hentry
    split at hentry'
    · rename_i heq
      cases hentry'
      refine .inr (.inr ?_)
      simp only [completesPark, hsup, heq, beq_self_eq_true, Bool.and_true]
      simpa [isParked, endedInfo] using hinfo
    · exact .inl (isParkedApp_iff.mpr ⟨found, foundLog, hentry', hinfo⟩)
  | removes other =>
    obtain ⟨info, log, hentry, hinfo⟩ := isParkedApp_iff.mp hparked
    exact .inl (isParkedApp_iff.mpr ⟨info, log, (of_lookup_erase hentry).2, hinfo⟩)
  | same hsame =>
    have hvms : _ = edge.agent.vms[name]? := congrArg (·[name]?) hsame.1
    exact .inl ((isParkedApp_congr hvms).symm.trans hparked)

/-- A start or wake that has not failed so far. -/
def GuardPc.fine : GuardPc → Bool
  | .finished (some _) | .noted (some _) => false
  | _ => true

/-- The task is a wake of the App that is under way or went well. -/
def Edge.Awaits (edge : Edge) (name : Str) (task : Nat) : Prop :=
  (∃ guard, edge.guards[task]? = some guard ∧ guard.isWake = true ∧ guard.name = name ∧
      guard.pc.fine = true ∧ edge.results[task]? = none) ∨
    edge.guards[task]? = none ∧ edge.results[task]? = some none ∧ task < edge.agent.nextTask

theorem Edge.Kept.awaited_lt (h : edge.Kept)
    (hawaits : edge.Awaits name task) : task < edge.agent.nextTask := by
  rcases hawaits with ⟨guard, hguard, -⟩ | ⟨-, -, hlt⟩
  · exact h.guarded.lt hguard
  · exact hlt

/-- A wake that still has a task is under way. -/
theorem Edge.Awaits.guard {guard} (h : edge.Awaits name task)
    (hguard : edge.guards[task]? = some guard) : guard.isWake ∧ guard.name = name ∧
      guard.pc.fine ∧ edge.results[task]? = none := by
  rcases h with ⟨found, hfound, hwake⟩ | ⟨hgone, -⟩
  · cases hguard.symm.trans hfound
    exact hwake
  · cases hgone.symm.trans hguard

/-- The wake is as it was when the step is about other tasks. -/
theorem Edge.Awaits.of_eq (h : edge.Awaits name task)
    (hguard : next.guards[task]? = edge.guards[task]?)
    (hresult : next.results[task]? = edge.results[task]?)
    (hle : edge.agent.nextTask ≤ next.agent.nextTask) : next.Awaits name task := by
  unfold Edge.Awaits
  rw [hguard, hresult]
  rcases h with hguarded | ⟨hgone, hdone, hlt⟩
  · exact .inl hguarded
  · exact .inr ⟨hgone, hdone, hlt.trans_le hle⟩

theorem Edge.fine_result {guard failure} (hfine : guard.pc.fine)
    (h : Edge.Guard.result guard = some failure) : failure = none := by
  cases failure with
  | none => rfl
  | some why =>
    unfold Edge.Guard.result at h
    split at h
    · rename_i hpc
      split at h
      · cases h
      · cases h
        rw [hpc] at hfine
        cases hfine
    · rename_i hpc
      cases h
      rw [hpc] at hfine
      cases hfine
    · cases h

/-- A wake goes on well unless it fails. -/
theorem Edge.Kept.awaits_of_step (h : edge.Kept)
    (hstep : edge.step subnet event = some next) (hfails : edge.failsWake name event = false)
    (hawaits : edge.Awaits name task) : next.Awaits name task := by
  have hreserves {launch} (hreserves : edge.Reserves launch next) :
      next.Awaits name task := by
    have hne : task ≠ edge.agent.nextTask := (h.awaited_lt hawaits).ne
    apply hawaits.of_eq
    · rw [hreserves.guards, lookup_insert, if_neg hne]
    · rw [hreserves.results]
    · rw [hreserves.agent]
      exact Nat.le_succ _
  cases (move_of_step hstep).seen with
  | apart happart =>
    exact hawaits.of_eq (by rw [happart.guards]) (by rw [happart.results])
      (by rw [happart.agent])
  | arrives | hangsUp | request | removes => exact hawaits.of_eq rfl rfl le_rfl
  | reserves hres | wakes _ _ _ hres => exact hreserves hres
  | @guards _ other guard pc wakeFailures hguard hpc =>
    by_cases heq : task = other
    · subst heq
      obtain ⟨hwake, hname, hfine, hresult⟩ := hawaits.guard hguard
      refine .inl ⟨{ guard with pc }, by simp [setGuard], hwake, hname, ?_, hresult⟩
      rcases hpc with ⟨-, rfl⟩ | ⟨failure, hfinished, rfl⟩
      · rfl
      · rw [hfinished] at hfine
        cases failure with
        | none => rfl
        | some why => cases hfine
    · refine hawaits.of_eq ?_ rfl le_rfl
      simp only [setGuard, lookup_insert, if_neg heq]
  | @finishes other how guard agent watches hguard hagent =>
    have hle := (launches_of_finished hagent).2
    by_cases heq : task = other
    · subst heq
      obtain ⟨hwake, hname, -, hresult⟩ := hawaits.guard hguard
      cases how with
      | launched startedAt =>
        refine .inl ⟨{ guard with pc := .finished none }, ?_, hwake, hname, rfl, hresult⟩
        simp [setGuard, Edge.Guard.failure]
      | failed | lost => simp [failsWake, hguard, hwake, hname] at hfails
    · refine hawaits.of_eq ?_ rfl hle
      simp only [setGuard, lookup_insert, if_neg heq]
  | @settles _ other guard failure hguard hresult =>
    by_cases heq : task = other
    · subst heq
      cases fine_result (hawaits.guard hguard).2.2.1 hresult
      exact .inr ⟨by simp [notifyWaiters], by simp [notifyWaiters], h.guarded.lt hguard⟩
    · refine hawaits.of_eq ?_ ?_ le_rfl
      · simp only [notifyWaiters, lookup_erase, if_neg heq]
      · simp only [notifyWaiters, lookup_insert, if_neg heq]
  | recordsEnd hagent =>
    obtain ⟨owner, -, rfl⟩ := vmEnded_eq_some hagent
    exact hawaits.of_eq rfl rfl le_rfl
  | same hsame => exact hawaits.of_eq rfl rfl hsame.2.2.2.ge

/-! ## What a request can find -/

/-- Whatever App the hostname leads to when a request looks is the App `name`. -/
def Table.leadsTo (vms : Table) (host name : Str) : Bool :=
  (appWithHost vms host).all (· == name)

theorem Table.eq_of_leadsTo {vms entry} (h : leadsTo vms host name)
    (hfind : (vms.toList.find? fun item => item.2.route.any fun route => route.host == host) =
      some (found, entry)) : found = name := by
  simpa [leadsTo, appWithHost, hfind] using h

/-- The App has ended, and is not parked. -/
def Edge.hasEnded (edge : Edge) (name : Str) : Bool :=
  edge.agent.vms[name]?.any fun
    | .ended info _ => !isParked info
    | _ => false

/-- What a request can find whose hostname leads to the App. -/
inductive Edge.Sees (edge : Edge) (name : Str) : Step → Prop
  | answers {resolution} (h : ∀ why, resolution ≠ .unavailable why) :
      Sees edge name (.answer resolution)
  | parking {app} : Sees edge name (.hold app .park)
  | starting {app} (h : edge.isParkedApp name = false) : Sees edge name (.hold app .start)
  | parked (h : edge.isParkedApp name) : Sees edge name (.wake name)
  | ended {why} (h : edge.hasEnded name) : Sees edge name (.answer (.unavailable why))

theorem Edge.Kept.sees (h : edge.Kept) (hleads : Table.leadsTo edge.agent.vms host name) :
    edge.Sees name (stepFor edge.isParking none edge.agent.vms host) := by
  simp only [stepFor]
  split
  · exact .answers (by simp)
  · rename_i found info log task hfind
    obtain ⟨hentry, hroute⟩ := lookup_of_find? hfind
    obtain ⟨address, haddress⟩ := isSome_iff_exists.mp (h.claimed.owned.addressed hentry)
    obtain ⟨route, hroute, -⟩ := (any_eq_true _ _).mp hroute
    have hroute' : info.route = some route := hroute
    rw [haddress, hroute']
    split
    · exact .parking
    · exact .answers (by simp)
  · rename_i found vmAddress log route hfind
    cases Table.eq_of_leadsTo hleads hfind
    exact .starting (by simp [isParkedApp, (lookup_of_find? hfind).1])
  · rename_i found info log hfind
    cases Table.eq_of_leadsTo hleads hfind
    have hentry := (lookup_of_find? hfind).1
    split
    · rename_i hparked
      exact .parked (isParkedApp_iff.mpr ⟨info, log, hentry, hparked⟩)
    · rename_i hparked
      exact .ended (by simp [hasEnded, hentry, hparked])

/-! ## A request on its way -/

/-- The wake that a request is about to do cannot be done: the agent shuts down, no
address is free, the VM is gone or its snapshot is. -/
def Edge.cannotWake (edge : Edge) (subnet : Subnet) (name : Str) (isDir : Bool) : Bool :=
  match edge.agent.wakeVm subnet name isDir with
  | .ok _ => false
  | .error ⟨.conflict, _⟩ => edge.isParkedApp name
  | .error _ => true

/-- What there is to say for an answer that the App is unavailable: the deadline has
passed, the App has ended, or a wake of it has failed or cannot be done. -/
def Edge.excuses (subnet : Subnet) (id : Nat) (name : Str) (edge : Edge) (event : EdgeEvent) :
    Bool :=
  edge.failsWake name event ||
    match event with
    | .timeout request => request == id
    | .look request _ => request == id && edge.hasEnded name
    | .wake request isDir => request == id && edge.cannotWake subnet name isDir
    | _ => false

/-- Whenever the request looks, its hostname leads to the App and to no Machine. -/
def Edge.asksFor (id : Nat) (name : Str) (edge : Edge) : EdgeEvent → Bool
  | .look request onMachine =>
    request != id || (onMachine.isNone &&
      edge.requests[id]?.all fun request => Table.leadsTo edge.agent.vms request.host name)
  | _ => true

/-- No park of the App completes while the request remembers a start or a wake. -/
def Edge.leavesAwake (id : Nat) (name : Str) (edge : Edge) (event : EdgeEvent) : Bool :=
  !(edge.completesPark name event && edge.requests[id]?.any fun request => request.tried.isSome)

/-- Nothing has gone wrong for the request yet. -/
structure Edge.OnCourse (edge : Edge) (name : Str) (request : EdgeRequest) : Prop where
  tried : request.tried.isSome → edge.isParkedApp name = false
  wake : ∀ other, request.pc = .wake other → other = name
  await : ∀ other task, request.pc = .await other task → edge.Awaits name task
  answer : ∀ why, request.pc ≠ .done (.unavailable why)

/-- How a request comes to be what it is after a step. -/
inductive Edge.Became (subnet : Subnet) (edge : Edge) (id : Nat) (event : EdgeEvent)
    (next : Edge) (request : EdgeRequest) : EdgeRequest → Prop
  | told (notified : Bool) : Became subnet edge id event next request { request with notified }
  | stepped {request'} (hstep : edge.RequestStep subnet id request event request')
      (hagent : next.agent = edge.agent) : Became subnet edge id event next request request'
  | wakes {name : Str} (hpc : request.pc = .wake name)
      (hguard : next.guards[edge.agent.nextTask]? = some ⟨name, true, .spawned⟩)
      (hresults : next.results = edge.results) :
      Became subnet edge id event next request
        { request with pc := .await name edge.agent.nextTask }

theorem Edge.became_of_step {id request'} (hlt : id < edge.nextRequest)
    (hstep : edge.step subnet event = some next) (hrequest' : next.requests[id]? = some request') :
    ∃ request, edge.requests[id]? = some request ∧
      edge.Became subnet id event next request request' := by
  have hsame (hrequests : next.requests[id]? = edge.requests[id]?) :
      ∃ request, edge.requests[id]? = some request ∧
        edge.Became subnet id event next request request' :=
    ⟨request', hrequests.symm.trans hrequest', .told request'.notified⟩
  have htold (hrequests : next.requests = edge.notifyWaiters.requests) :
      ∃ request, edge.requests[id]? = some request ∧
        edge.Became subnet id event next request request' := by
    rw [hrequests, notifyWaiters, ExtTreeMap.getElem?_map] at hrequest'
    obtain ⟨request, hrequest, rfl⟩ := map_eq_some_iff.mp hrequest'
    exact ⟨request, hrequest, .told _⟩
  cases (move_of_step hstep).seen with
  | apart happart =>
    rcases happart.requests with hrequests | hrequests
    · exact hsame (by rw [hrequests])
    · exact htold hrequests
  | arrives host =>
    apply hsame
    simp only [resolve, setRequest, lookup_insert, if_neg hlt.ne]
  | hangsUp other =>
    exact ⟨request', (of_lookup_erase hrequest').2, .told request'.notified⟩
  | @request _ other request found hrequest hbecomes =>
    obtain ⟨rfl, rfl⟩ | ⟨-, hrequest'⟩ := of_lookup_insert hrequest'
    · exact ⟨request, hrequest, .stepped hbecomes rfl⟩
    · exact ⟨request', hrequest', .told request'.notified⟩
  | reserves _ hrequests => exact hsame (by rw [hrequests])
  | @wakes other isDir request launch next hrequest hpc hwake hreserves hrequests =>
    rw [hrequests] at hrequest'
    obtain ⟨rfl, rfl⟩ | ⟨-, hrequest'⟩ := of_lookup_insert hrequest'
    · refine ⟨request, hrequest, .wakes hpc ?_ hreserves.results⟩
      rw [hreserves.guards, lookup_insert, if_pos rfl, hwake]
    · exact ⟨request', hrequest', .told request'.notified⟩
  | guards | finishes | recordsEnd | removes | same => exact hsame rfl
  | settles => exact htold rfl

/-- A request that looks is on course if the App has not ended. -/
theorem Edge.OnCourse.afterLook {request} (h : edge.Kept) (hcourse : edge.OnCourse name request)
    (hleads : Table.leadsTo edge.agent.vms request.host name)
    (hended : edge.hasEnded name = false) (hagent : next.agent = edge.agent) :
    next.OnCourse name (edge.afterLook request
      (stepFor edge.isParking none edge.agent.vms request.host)) := by
  have hparked : next.isParkedApp name = edge.isParkedApp name :=
    Edge.isParkedApp_congr (by rw [hagent])
  have hkeeps (htried : request.tried.isSome) : next.isParkedApp name = false :=
    hparked.trans (hcourse.tried htried)
  have hsees := h.sees hleads
  generalize stepFor edge.isParking none edge.agent.vms request.host = found at hsees
  cases hsees with
  | answers hother =>
    refine ⟨hkeeps, nofun, nofun, fun why hpc => ?_⟩
    cases hpc
    exact hother why rfl
  | ended hsome => cases hended.symm.trans hsome
  | parking => exact ⟨hkeeps, nofun, nofun, nofun⟩
  | starting hstarting => exact ⟨fun _ => hparked.trans hstarting, nofun, nofun, nofun⟩
  | parked hisParked =>
    cases htried : request.tried with
    | some tried =>
      -- an App that was waited for is not parked
      cases hisParked.symm.trans (hcourse.tried (by rw [htried]; rfl))
    | none =>
      simp only [Edge.afterLook, htried]
      refine ⟨by simp, fun other hpc => ?_, by simp, by simp⟩
      cases hpc
      rfl

theorem Edge.OnCourse.step {id} (h : edge.Kept) (hlt : id < edge.nextRequest)
    (hcourse : ∀ request, edge.requests[id]? = some request → edge.OnCourse name request)
    (hstep : edge.step subnet event = some next) (hasks : edge.asksFor id name event)
    (hawake : edge.leavesAwake id name event)
    (hexcuse : edge.excuses subnet id name event = false) {request'}
    (hrequest' : next.requests[id]? = some request') : next.OnCourse name request' := by
  obtain ⟨request, hrequest, hbecame⟩ := became_of_step hlt hstep hrequest'
  have hold := hcourse request hrequest
  have hfails : edge.failsWake name event = false := (Bool.or_eq_false_iff.mp hexcuse).1
  have htried (hsome : request.tried.isSome) : next.isParkedApp name = false := by
    by_contra hparked
    rcases h.isParkedApp_of_step hstep (by simpa using hparked) with hbefore | hfailed | hparks
    · cases hbefore.symm.trans (hold.tried hsome)
    · cases hfails.symm.trans hfailed
    · simp [leavesAwake, hparks, hrequest, hsome] at hawake
  have hawaits {task : Nat} (hawaits : edge.Awaits name task) : next.Awaits name task :=
    h.awaits_of_step hstep hfails hawaits
  cases hbecame with
  | told notified =>
    exact ⟨htried, hold.wake, fun other task hpc => hawaits (hold.await other task hpc),
      hold.answer⟩
  | @wakes found hpc hguard hresults =>
    cases hold.wake found hpc
    refine ⟨htried, nofun, fun other task hawait => ?_, nofun⟩
    cases hawait
    refine .inl ⟨_, hguard, rfl, rfl, rfl, ?_⟩
    rw [hresults]
    cases hresult : edge.results[edge.agent.nextTask]? with
    | none => rfl
    | some failure => exact absurd (h.result_lt hresult) (Nat.lt_irrefl _)
  | stepped hbecomes hagent =>
    cases hbecomes with
    | listens | goesOn | woken => exact ⟨htried, nofun, nofun, nofun⟩
    | timesOut why => simp [excuses] at hexcuse
    | looks onMachine =>
      simp only [asksFor, bne_self_eq_false, Bool.false_or, hrequest, all_some,
        Bool.and_eq_true, isNone_iff_eq_none] at hasks
      simp only [excuses, beq_self_eq_true, Bool.true_and, Bool.or_eq_false_iff]
        at hexcuse
      obtain ⟨rfl, hleads⟩ := hasks
      exact hold.afterLook h hleads hexcuse.2 hagent
    | conflicts hpc herror =>
      cases hold.wake _ hpc
      have hparked : next.isParkedApp name = edge.isParkedApp name :=
        isParkedApp_congr (by rw [hagent])
      refine ⟨fun _ => ?_, nofun, nofun, nofun⟩
      rw [hparked]
      simpa [excuses, failsWake, cannotWake, herror] using hexcuse
    | refused hpc herror hstatus =>
      cases hold.wake _ hpc
      rename_i status
      cases status with
      | conflict => exact absurd rfl hstatus
      | _ => simp [excuses, cannotWake, herror] at hexcuse
    | failed hpc hresult =>
      rcases hold.await _ _ hpc with ⟨-, -, -, -, -, hnone⟩ | ⟨-, hwell, -⟩
      · cases hnone.symm.trans hresult
      · cases hwell.symm.trans hresult

theorem Edge.nextRequest_le_of_step (hstep : edge.step subnet event = some next) :
    edge.nextRequest ≤ next.nextRequest := by
  cases (move_of_step hstep).seen with
  | apart happart => exact happart.nextRequest.ge
  | arrives host => exact Nat.le_succ _
  | reserves hreserves | wakes _ _ _ hreserves => exact hreserves.nextRequest.ge
  | hangsUp | request | guards | finishes | settles | recordsEnd | removes | same => exact le_rfl

/-! ## Every run -/

/-- An agent that has taken its records back. -/
theorem Edge.Kept.new {isRunning now} {rows : Rows} {machines start}
    (hstart : Agent.empty.reconcile isRunning now rows.load = some start) :
    (Edge.new { start with machines }).Kept := by
  have hlaunches : start.launches = ∅ := (launches_reconcile hstart).trans rfl
  refine
    { claimed := .new (.start hstart machines)
      guarded := ⟨by simp [Edge.new, hlaunches], by simp [Edge.new]⟩
      unparked := by simp [Edge.new, hlaunches]
      result_lt := by simp [Edge.new] }

/-- However an agent starts and whatever is going on when a request arrives: the request is
told that its App is unavailable only after its deadline has passed, it has found the App
ended, or a wake of the App has failed or could not be done. The hostname is taken to lead
to that App throughout, and the App is not to be parked anew while the request remembers
that it has waited for a start or tried a wake. -/
theorem unavailable_only_with_excuse (subnet : Subnet) (isRunning : Ipv4Addr → ProcessId → Bool)
    (now : Nat) (rows : Rows) (machines : Machines) {start : Agent} {edge last : Edge}
    {earlier schedule : List EdgeEvent} {host name why : Str} {request : EdgeRequest}
    (hstart : Agent.empty.reconcile isRunning now rows.load = some start)
    (hearlier : run (Edge.step subnet) (.new { start with machines }) earlier = some edge)
    (hrun : run (Edge.step subnet) (edge.resolve host) schedule = some last)
    (hasks : Along (Edge.step subnet)
      (fun state event => state.asksFor edge.nextRequest name event = true) (edge.resolve host)
      schedule) (hawake : Along (Edge.step subnet)
      (fun state event => state.leavesAwake edge.nextRequest name event = true) (edge.resolve host)
      schedule) (hrequest : last.requests[edge.nextRequest]? = some request)
    (hpc : request.pc = .done (.unavailable why)) :
    ∃ first event second middle, schedule = first ++ event :: second ∧
      run (Edge.step subnet) (edge.resolve host) first = some middle ∧
      middle.excuses subnet edge.nextRequest name event = true := by
  have hkept : edge.Kept := run_preserves_all Edge.Kept.of_step (.new hstart) hearlier
  have hresolve : edge.step subnet (.resolve host) = some (edge.resolve host) := rfl
  have harrived : (edge.resolve host).Kept := hkept.of_step hresolve
  by_contra hnone
  have hexcuse : Along (Edge.step subnet)
      (fun state event => state.excuses subnet edge.nextRequest name event = false)
      (edge.resolve host) schedule := by
    by_contra hsome
    obtain ⟨first, event, second, middle, hsplit, hfirst, hexcuse⟩ := exists_of_not_along hsome
    exact hnone ⟨first, event, second, middle, hsplit, hfirst, by simpa using hexcuse⟩
  let OnItsWay (state : Edge) : Prop := state.Kept ∧ edge.nextRequest < state.nextRequest ∧
    ∀ request, state.requests[edge.nextRequest]? = some request → state.OnCourse name request
  have hinit : OnItsWay (edge.resolve host) := by
    refine ⟨harrived, Nat.lt_succ_self _, fun request hrequest => ?_⟩
    simp only [Edge.resolve, Edge.setRequest, lookup_insert, if_true] at hrequest
    cases hrequest
    exact ⟨by simp, by simp, by simp, by simp⟩
  have hlast : OnItsWay last := by
    refine run_preserves ?_ hinit ((hasks.and hawake).and hexcuse) hrun
    rintro state event next ⟨⟨hasks, hawake⟩, hexcuse⟩ ⟨hkept, hlt, hcourse⟩ hstep
    exact ⟨hkept.of_step hstep, hlt.trans_le (Edge.nextRequest_le_of_step hstep),
      fun request hrequest =>
        Edge.OnCourse.step hkept hlt hcourse hstep hasks hawake hexcuse hrequest⟩
  exact (hlast.2.2 request hrequest).answer why hpc

end

/-! ## Two requests -/

/-- An App starts, is parked, and its snapshot is kept. -/
def startAndPark : List EdgeEvent :=
  [.begin 0, .finish 0 (.launched 5), .settle 0, .claimPark "web", .beginPark 0, .lookUp 0,
    .send 0, .deliver 1, .parkEnds 1 .parked, .close 1, .recordEnd 1 ⟨6, .parked⟩]

/-- The request to start it. -/
def startWeb : EdgeEvent :=
  .runVm (.sample "web" (some (.sample "web.example"))) "web.log"

/-- A request for the parked App wakes it, and the wake fails. -/
def failedWake : List EdgeEvent :=
  [.listen 0, .look 0 none, .wake 0 true, .begin 2, .finish 2 (.failed "no memory"),
    .noteWake 2, .settle 2, .woken 0]

instance {pc : RequestPc} {p : Str → Prop} [DecidablePred p] :
    Decidable (∃ why, pc = .done (.unavailable why) ∧ p why) :=
  match pc with
  | .done (.unavailable why) => decidable_of_iff (p why) (by simp)
  | .done (.upstream _ _) | .done .notFound | .listen | .look | .hold _ _ | .wake _ | .await _ _ =>
    isFalse (by simp)

/-- The theorem applies: a request whose wake fails is answered with an excuse. -/
theorem failed_wake_is_an_excuse :
    ∃ edge last request why, run (Edge.step .sample) (.new .empty)
        (startWeb :: startAndPark) = some edge ∧
      run (Edge.step .sample) (edge.resolve "web.example") failedWake = some last ∧
      last.requests[edge.nextRequest]? = some request ∧ request.pc = .done (.unavailable why) ∧
      ∃ first event second middle, failedWake = first ++ event :: second ∧
        run (Edge.step .sample) (edge.resolve "web.example") first = some middle ∧
        middle.excuses .sample edge.nextRequest "web" event = true := by
  obtain ⟨edge, hearlier, hasks, hawake, last, hrun, request, hrequest, why, hpc, -⟩ :
      ∃ edge,
      run (Edge.step .sample) (.new .empty) (startWeb :: startAndPark) = some edge ∧
      Along (Edge.step .sample)
        (fun state event => state.asksFor edge.nextRequest "web" event)
        (edge.resolve "web.example") failedWake ∧
      Along (Edge.step .sample)
        (fun state event => state.leavesAwake edge.nextRequest "web" event)
        (edge.resolve "web.example") failedWake ∧
      ∃ last, run (Edge.step .sample) (edge.resolve "web.example") failedWake =
        some last ∧
      ∃ request, last.requests[edge.nextRequest]? = some request ∧
        ∃ why, request.pc = .done (.unavailable why) ∧ True := by decide +kernel
  exact ⟨edge, last, request, why, hearlier, hrun, hrequest, hpc,
    unavailable_only_with_excuse .sample (fun _ _ => false) 0 ∅ ∅ reconcile_nothing hearlier hrun
      hasks hawake hrequest hpc⟩

/-- A request waits for the App's first start, which goes well, and the App is parked before
the request looks again. -/
def parkedAfterStart : List EdgeEvent :=
  [.listen 0, .look 0 none] ++ startAndPark ++ [.goOn 0, .listen 0, .look 0 none]

/-- It is told that the App failed to wake, though nothing has failed. -/
theorem unavailable_without_excuse :
    ∃ edge last request why,
      run (Edge.step .sample) (.new .empty) [startWeb] = some edge ∧
      run (Edge.step .sample) (edge.resolve "web.example") parkedAfterStart = some last ∧
      last.requests[edge.nextRequest]? = some request ∧ request.pc = .done (.unavailable why) ∧
      Along (Edge.step .sample)
        (fun state event => state.asksFor edge.nextRequest "web" event = true)
        (edge.resolve "web.example") parkedAfterStart ∧
      Along (Edge.step .sample)
        (fun state event => state.excuses .sample edge.nextRequest "web" event = false)
        (edge.resolve "web.example") parkedAfterStart := by
  simp only [exists_and_left]
  decide +kernel

end Cirrocumulus.Node
