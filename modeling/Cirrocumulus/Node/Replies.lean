/-
# What a park or a stop answers

`park_vm` and `stop_vm` wait until their VM's supervisor has recorded the VM's end, and
then look the table up once more, by name, for the record they answer with. Nothing holds
the name between the two. Whoever comes first finds an Ended VM, and may wake it, remove
it, or run another VM under its name.

A call hears of the end and reads the table in one step here: it may hear of it as late as
it likes, so the step is where the read happens.
-/

import Cirrocumulus.Node.RequestSteps

namespace Cirrocumulus.Node

open Std (ExtTreeMap)
open Lib List Option

/-! ## The calls -/

/-- `Agent::running`: the supervisor of the VM that runs under a name. -/
def Agent.running (agent : Agent) (name : Str) : Except ApiError Nat :=
  match agent.vms[name]? with
  | none => .error (noSuchVm name)
  | some (.starting _ _ _) =>
    .error (conflict ("VM " ++ quoted name ++ " is still starting"))
  | some (.ended info _) =>
    .error (conflict ("VM " ++ quoted name ++
      (if isParked info then
        " is parked: wake it first, or rm it to discard its snapshot".toList
      else " has already ended; `cirro run` starts a new VM under its name".toList)))
  | some (.running _ _ task) => .ok task

/-- `Agent::ended_info`. -/
def Agent.endedInfo (agent : Agent) (name : Str) : Except ApiError VmInfo :=
  match agent.vms[name]? with
  | some (.ended info _) => .ok info
  | _ =>
    .error ⟨.internal, "VM " ++ quoted name ++ " ended, but its record is gone"⟩

/-- What `park` says of a VM that ends first. -/
def endedFirst (name : Str) : ApiError :=
  conflict ("VM " ++ quoted name ++ " ended before it could be parked")

/-- What `park` says when the supervisor answers with an error. -/
def notParked (name why : Str) : ApiError :=
  ⟨.unprocessableEntity, "VM " ++ quoted name ++ " couldn't be parked: " ++ why⟩

/-- A call of `stop_vm` that has found its VM. -/
structure StopCall where
  name : Str
  target : Nat
  force : Bool
  sent : Bool
  deriving DecidableEq

inductive Call
  | park | stop
  deriving DecidableEq

/-- An answer that was given. -/
structure Answer where
  call : Call
  /-- The Ended record of the VM that it was about: the one whose supervisor took the park,
  or the one that the stop found. -/
  record : Option VmInfo
  reply : Except ApiError VmInfo

/-- A park succeeds exactly if its VM has ended as parked. It then answers with that VM's
record, and a stop always does. -/
def Answer.Right (answer : Answer) : Prop :=
  match answer.call with
  | .park => answer.reply.toOption = answer.record.filter isParked
  | .stop => answer.record.isSome = true ∧ answer.reply.toOption = answer.record

instance (answer : Answer) : Decidable answer.Right := by
  unfold Answer.Right
  split <;> infer_instance

/-- The edge's system, and the calls that wait for the end of a VM. -/
structure Calls where
  edge : Edge
  /-- The record of each VM whose end was recorded, by its supervisor. -/
  ended : ExtTreeMap Nat VmInfo compare
  stops : ExtTreeMap Nat StopCall compare
  nextStop : Nat
  answers : List Answer

inductive CallEvent
  /-- A step of the edge's system. If a supervisor answers a park with an error, `why` is
  that error. -/
  | edge (event : EdgeEvent) (why : Str)
  | stopVm (name : Str) (force : Bool)
  | sendStop (id : Nat)
  | hearStop (id : Nat)
  deriving DecidableEq

namespace Calls

def new (agent : Agent) : Calls := ⟨.new agent, ∅, ∅, 0, []⟩

variable (calls : Calls)

/-- The reason that is recorded is `Parked` if the supervisor has told a park so, which
then waits for the end, and not otherwise. -/
def tellsWhy : EdgeEvent → Bool
  | .recordEnd task ended =>
    (ended.reason == .parked) ==
      calls.edge.parks.toList.any fun item => item.2.pc == .ending task
  | _ => true

/-- The ends that are recorded after a step. -/
def ends : EdgeEvent → ExtTreeMap Nat VmInfo compare
  | .recordEnd task ended =>
    match calls.edge.agent.supervisors[task]?.bind (calls.edge.agent.vms[·]?) with
    | some (.running info _ _) => calls.ended.insert task (endedInfo info ended)
    | _ => calls.ended
  | _ => calls.ended

/-- How a park answers that never waits for the end. A supervisor that has not closed its
channel has taken the park's message. -/
def refusal (park : Park) (why : Str) : Option Answer :=
  match park.pc with
  | .lookUp =>
    some ⟨.park, none,
      (calls.edge.agent.running park.name).bind fun _ => .error (endedFirst park.name)⟩
  | .send _ => some ⟨.park, none, .error (endedFirst park.name)⟩
  | .sent task =>
    if calls.edge.watches[task]?.any (·.pc ≠ .closed) then
      some ⟨.park, calls.ended[task]?, .error (notParked park.name why)⟩
    else some ⟨.park, none, .error (endedFirst park.name)⟩
  | _ => none

/-- How a park answers that hears of the end. -/
def read (park : Park) : Option Answer :=
  match park.pc with
  | .ending task => some ⟨.park, calls.ended[task]?, calls.edge.agent.endedInfo park.name⟩
  | _ => none

/-- The answers that a step to `next` gives. -/
def given (next : Edge) (why : Str) : EdgeEvent → List Answer
  | .heardEnd id => (calls.edge.parks[id]?.bind calls.read).toList
  | _ =>
    calls.edge.parks.toList.filterMap fun item =>
      if next.parks[item.1]?.any (·.pc = .release) then calls.refusal item.2 why else none

def onEdge (subnet : Subnet) (event : EdgeEvent) (why : Str) : Option Calls :=
  if calls.tellsWhy event then
    (calls.edge.step subnet event).map fun edge =>
      { calls with
        edge
        ended := calls.ends event
        answers := calls.given edge why event ++ calls.answers }
  else none

/-- A stop sends its message, unless the channel is closed, and waits. -/
def sendStop (subnet : Subnet) (id : Nat) : Option Calls :=
  calls.stops[id]?.bind fun call =>
    if call.sent then none
    else
      (if calls.edge.watches[call.target]?.any (·.pc = .closed) then some calls
        else calls.onEdge subnet (.stop call.target call.force) []).map fun next =>
          { next with stops := next.stops.insert id { call with sent := true } }

/-- A stop hears of the end, and reads the record. -/
def hearStop (id : Nat) : Option Calls :=
  calls.stops[id]?.bind fun call =>
    if call.sent && calls.edge.agent.supervisors[call.target]?.isNone then
      some { calls with
        stops := calls.stops.erase id
        answers := ⟨.stop, calls.ended[call.target]?, calls.edge.agent.endedInfo call.name⟩ ::
          calls.answers }
    else none

def step (subnet : Subnet) : CallEvent → Option Calls
  | .edge event why => calls.onEdge subnet event why
  | .stopVm name force =>
    match calls.edge.agent.running name with
    | .ok target =>
      some { calls with
        stops := calls.stops.insert calls.nextStop ⟨name, target, force, false⟩
        nextStop := calls.nextStop + 1 }
    | .error _ => some calls
  | .sendStop id => calls.sendStop subnet id
  | .hearStop id => calls.hearStop id

/-- The calls that wait for an end, each with the name it looks up then. -/
def waiting : List (Str × Nat) :=
  (calls.edge.parks.toList.filterMap fun item =>
    match item.2.pc with
    | .ending task => some (item.2.name, task)
    | _ => none) ++
  calls.stops.toList.map fun item => (item.2.name, item.2.target)

/-- The event neither gives a name to a start or a wake nor removes it while a call has yet
to read the Ended VM's record there. -/
def leavesRecords (subnet : Subnet) : CallEvent → Bool
  | .edge event _ => calls.waiting.all fun item =>
    calls.ended[item.2]?.isNone || calls.edge.takes subnet event != some item.1
  | _ => true

end Calls

/-! ## Whose end a call waits for -/

section

variable {subnet : Subnet} {edge next : Edge} {event : EdgeEvent} {id task : Nat} {name : Str}
  {park : Park}

/-- A park after a step, as it was before. -/
inductive Edge.WasPark (edge : Edge) (id : Nat) (park : Park) : Prop
  | same (h : edge.parks[id]? = some park)
  | aimless (h : park.pc.target = none)
  | found {task : Nat} (hpc : park.pc = .send task)
      (hsup : edge.agent.supervisors[task]? = some park.name)
  /-- It goes on with a supervisor that takes messages. -/
  | goesOn {old task watched} (hold : edge.parks[id]? = some old)
      (hname : old.name = park.name) (hbefore : old.pc.target = some task)
      (hafter : park.pc.target = some task) (hwatched : edge.watches[task]? = some watched)
      (hopen : watched.pc ≠ .closed)

/-- A supervisor that owes a park an answer has not closed its channel. -/
theorem Edge.Claimed.open_of_asked (h : edge.Claimed) {watched asked}
    (hwatched : edge.watches[task]? = some watched) (hasked : (id :: asked).Sublist watched.asked) :
    watched.pc ≠ .closed := by
  intro hclosed
  simpa [Watched.asked, hclosed, h.closed hwatched hclosed] using hasked.subset

theorem AgentMove.nextTask_le {agent after} (h : AgentMove subnet agent after) :
    agent.nextTask ≤ after.nextTask := by
  cases h with
  | reserved | launched => exact Nat.le_succ _
  | launchEnded hend =>
    rw [hend.next_eq]
    exact le_rfl
  | vmEnded | removed => exact le_rfl
  | same hsame => exact hsame.2.2.2.ge

/-- A supervisor's VM has the name that it had before. -/
theorem AgentMove.supervisor_before {agent after} (h : AgentMove subnet agent after)
    (hlt : task < agent.nextTask) (hsup : after.supervisors[task]? = some name) :
    agent.supervisors[task]? = some name := by
  cases h with
  | reserved | removed => exact hsup
  | launchEnded hend =>
    rw [hend.next_eq] at hsup
    exact hsup
  | launched => exact (lookup_insert_of_ne _ hlt.ne).symm.trans hsup
  | vmEnded => exact (of_lookup_erase hsup).2
  | same hsame =>
    rw [← hsame.2.2.1]
    exact hsup

theorem EdgeMove.wasPark (hmove : EdgeMove subnet edge event next) (hclaimed : edge.Claimed)
    (hpark : next.parks[id]? = some park) : edge.WasPark id park := by
  have hinsert {key value} (hnext : (edge.parks.insert key value)[id]? = some park)
      (hnew : edge.WasPark key value) : edge.WasPark id park :=
    forall_insert hnew .same hnext
  cases hmove with
  | request | hangUp | guard | settle | removed | reserve | ended | launched | watch
  | recordEnd | same => exact .same hpark
  | take hentry htake =>
    obtain ⟨watched, -, -, rfl⟩ := Edge.take_eq_some htake
    exact hinsert hpark (.aimless rfl)
  | takeAll idle =>
    refine Edge.parkIdleApps_induction (p := fun next => ∀ {id park},
      next.parks[id]? = some park → edge.WasPark id park) .same ?_ idle hpark
    intro before next name info log task hbefore _ htake
    obtain ⟨watched, -, -, rfl⟩ := Edge.take_eq_some htake
    exact fun hfound => forall_insert (.aimless rfl) hbefore hfound
  | park hfound hstep =>
    cases hstep with
    | begin | giveUp => exact hinsert hpark (.aimless rfl)
    | found hpc hentry =>
      exact hinsert hpark (.found rfl (hclaimed.owned.running_supervisor hentry))
  | send hfound hpc hwatched hopen =>
    exact hinsert hpark (.goesOn hfound rfl (by rw [hpc]; rfl) rfl hwatched hopen)
  | release => exact hinsert hpark (.aimless rfl)
  | settlePark => exact .same (of_lookup_erase hpark).2
  | @answer event task other watched pc inbox parkPc hwatched hasked hpc =>
    obtain ⟨found, hfound, hsent⟩ :=
      (hclaimed.asked hwatched).2 other (hasked.subset mem_cons_self)
    simp only [Edge.answer, hfound] at hpark
    apply hinsert hpark
    rcases hpc with rfl | rfl
    · exact .aimless rfl
    · exact .goesOn hfound rfl (by rw [hsent]; rfl) rfl hwatched
        (hclaimed.open_of_asked hwatched hasked)

/-- A supervisor whose channel is open still has its VM, and a park has found a VM of its
own name. -/
structure Edge.Aimed (edge : Edge) : Prop where
  live : ∀ {task : Nat} {watched}, edge.watches[task]? = some watched →
    watched.pc ≠ .closed → ∃ name, edge.agent.supervisors[task]? = some name
  target : ∀ {id : Nat} {park} {task : Nat}, edge.parks[id]? = some park →
    park.pc.target = some task → task < edge.agent.nextTask ∧
      ∀ name, edge.agent.supervisors[task]? = some name → name = park.name

namespace Edge.Aimed

theorem new (agent : Agent) : (Edge.new agent).Aimed where
  live := by
    intro task watched hwatched _
    simp only [Edge.new, ExtTreeMap.getElem?_map, map_eq_some_iff] at hwatched
    obtain ⟨name, hsup, -⟩ := hwatched
    exact ⟨name, hsup⟩
  target := by simp [Edge.new]

variable (h : edge.Aimed)
include h

/-- A park has found a VM of its own name after a step too. -/
theorem target_of_move (hclaimed : edge.Claimed)
    (hmove : EdgeMove subnet edge event next) (hpark : next.parks[id]? = some park)
    (htask : park.pc.target = some task) : task < edge.agent.nextTask ∧
      ∀ name, edge.agent.supervisors[task]? = some name → name = park.name := by
  cases hmove.wasPark hclaimed hpark with
  | same hsame => exact h.target hsame htask
  | aimless hnone =>
    rw [hnone] at htask
    cases htask
  | found hpc hsup =>
    rw [hpc] at htask
    cases htask
    exact ⟨hclaimed.owned.supervisor_lt hsup, fun name hname =>
      Option.some.inj (hname.symm.trans hsup)⟩
  | goesOn hold hname hbefore hafter =>
    cases hafter.symm.trans htask
    rw [← hname]
    exact h.target hold hbefore

/-- A park that waits for an end waited for it before, or for a VM that still runs. -/
theorem ending_of_move (hclaimed : edge.Claimed)
    (hmove : EdgeMove subnet edge event next) (hpark : next.parks[id]? = some park)
    (hpc : park.pc = .ending task) :
    edge.parks[id]? = some park ∨ edge.agent.supervisors[task]? = some park.name := by
  have htask : park.pc.target = some task := by rw [hpc]; rfl
  cases hmove.wasPark hclaimed hpark with
  | same hsame => exact .inl hsame
  | aimless hnone => cases hnone.symm.trans htask
  | found hsend => cases hsend.symm.trans hpc
  | goesOn hold hname hbefore hafter hwatched hopen =>
    cases hafter.symm.trans htask
    obtain ⟨name, hsup⟩ := h.live hwatched hopen
    have heq := (h.target hold hbefore).2 name hsup
    rw [heq, hname] at hsup
    exact .inr hsup

/-- A claim is taken, and its park has not looked yet. -/
theorem take (htake : edge.take name task = some next) : next.Aimed := by
  obtain ⟨watched, hwatched, -, rfl⟩ := take_eq_some htake
  have hlive := @h.live
  have htarget := @h.target
  constructor <;> grind [setWatch, setPark, lookup_insert, ParkPc.target]

/-- A supervisor goes on, with its channel no more open than before. -/
theorem live_insert {watched after found} {other : Nat}
    (hfound : (edge.watches.insert task after)[other]? = some found)
    (hwatched : edge.watches[task]? = some watched)
    (hopen : after.pc ≠ .closed → watched.pc ≠ .closed) (hpc : found.pc ≠ .closed) :
    ∃ name, edge.agent.supervisors[other]? = some name :=
  forall_insert (fun hafter => h.live hwatched (hopen hafter)) h.live hfound hpc

theorem live_of_move (hclaimed : edge.Claimed) (hmove : EdgeMove subnet edge event next) {watched}
    (hwatched : next.watches[task]? = some watched) (hopen : watched.pc ≠ .closed) :
    ∃ name, next.agent.supervisors[task]? = some name := by
  cases hmove with
  | request | hangUp | guard | settle | removed | park | settlePark | reserve =>
    exact h.live hwatched hopen
  | ended hguard _ hend =>
    rw [hend.next_eq]
    exact h.live hwatched hopen
  | @launched _ startedAt _ launch hguard hlaunch =>
    have hsups : ∃ name, (edge.agent.supervisors.insert edge.agent.nextTask
        (launch.info startedAt).name)[task]? = some name := by
      obtain ⟨heq, rfl⟩ | ⟨-, hwatched⟩ := of_lookup_insert hwatched
      · exact ⟨_, by rw [lookup_insert, if_pos heq]⟩
      · exact exists_insert (h.live hwatched hopen)
    exact hsups
  | take hentry htake => exact (h.take htake).live hwatched hopen
  | takeAll idle =>
    have haimed := parkIdleApps_induction h (fun haimed _ htake => haimed.take htake) idle
    exact haimed.live hwatched hopen
  | send hpark hpc hbefore hwas | watch hbefore hasked hwas =>
    exact h.live_insert hwatched hbefore (fun _ => hwas) hopen
  | release hpark hpc hbefore => exact h.live_insert hwatched hbefore id hopen
  | @answer _ other id before pc inbox parkPc hbefore hasked =>
    obtain ⟨found, hfound, -⟩ := (hclaimed.asked hbefore).2 id (hasked.subset mem_cons_self)
    simp only [Edge.answer, hfound] at hwatched ⊢
    exact h.live_insert hwatched hbefore (fun _ => hclaimed.open_of_asked hbefore hasked) hopen
  | @recordEnd other name before ended hbefore hclosed hsup =>
    have hne : task ≠ other := by
      rintro rfl
      cases hbefore.symm.trans hwatched
      exact hopen hclosed
    obtain ⟨name, hname⟩ := h.live hwatched hopen
    exact ⟨name, (lookup_erase_of_ne hne).trans hname⟩
  | same hsame =>
    rw [hsame.2.2.1]
    exact h.live hwatched hopen

theorem of_move (hclaimed : edge.Claimed)
    (hmove : EdgeMove subnet edge event next) : next.Aimed where
  live := h.live_of_move hclaimed hmove
  target := by
    intro id park task hpark htask
    obtain ⟨hlt, hname⟩ := h.target_of_move hclaimed hmove hpark htask
    exact ⟨hlt.trans_le hmove.agentMove.nextTask_le, fun name hsup =>
      hname name (hmove.agentMove.supervisor_before hlt hsup)⟩

end Edge.Aimed

/-- Only `record_end` takes a VM from its supervisor. -/
theorem EdgeMove.supervisor_after (h : EdgeMove subnet edge event next) (howned : Owned edge.agent)
    (hevent : ∀ task ended, event ≠ .recordEnd task ended)
    (hsup : edge.agent.supervisors[task]? = some name) :
    next.agent.supervisors[task]? = some name := by
  cases h with
  | ended _ _ hend =>
    rw [hend.next_eq]
    exact hsup
  | launched => exact (lookup_insert_of_ne _ (howned.supervisor_lt hsup).ne).trans hsup
  | take _ htake =>
    obtain ⟨watched, -, -, rfl⟩ := Edge.take_eq_some htake
    exact hsup
  | takeAll =>
    rw [Edge.agent_parkIdleApps]
    exact hsup
  | answer =>
    show (edge.answer _ _).agent.supervisors[task]? = _
    rw [Edge.agent_answer]
    exact hsup
  | recordEnd => exact absurd rfl (hevent _ _)
  | same hsame =>
    rw [hsame.2.2.1]
    exact hsup
  | request | hangUp | reserve | guard | settle | park | send | release | settlePark | watch
  | removed => exact hsup

/-- An Ended VM's entry whose name is not taken stays as it is. -/
theorem EdgeMove.ended_after (h : EdgeMove subnet edge event next) (howned : Owned edge.agent)
    {info log} (hentry : edge.agent.vms[name]? = some (.ended info log))
    (htakes : edge.takes subnet event ≠ some name) :
    next.agent.vms[name]? = some (.ended info log) := by
  have hne {other : Str} {entry} (hother : edge.agent.vms[other]? = some entry)
      (hlive : entry ≠ .ended info log) : name ≠ other := by
    rintro rfl
    exact hlive (Option.some.inj (hother.symm.trans hentry))
  cases h with
  | reserve hreserves hasks htaken =>
    refine (lookup_insert_of_ne _ ?_).trans hentry
    rintro rfl
    exact htakes htaken
  | ended _ _ hend =>
    rw [hend.vms_eq, if_neg (hne (howned.launch_entry hend.launch_eq) (by simp))]
    exact hentry
  | launched _ hlaunch =>
    exact (lookup_launched ..).trans
      ((if_neg (hne (howned.launch_entry hlaunch) (by simp))).trans hentry)
  | recordEnd ended _ _ hsup =>
    obtain ⟨_, _, hrunning, -⟩ := howned.supervisor_entry hsup
    exact (lookup_recordEnd hrunning ended name).trans
      ((if_neg (hne hrunning (by simp))).trans hentry)
  | removed =>
    refine (lookup_erase_of_ne ?_).trans hentry
    rintro rfl
    exact htakes rfl
  | take _ htake =>
    obtain ⟨watched, -, -, rfl⟩ := Edge.take_eq_some htake
    exact hentry
  | takeAll =>
    rw [Edge.agent_parkIdleApps]
    exact hentry
  | answer =>
    show (edge.answer _ _).agent.vms[name]? = _
    rw [Edge.agent_answer]
    exact hentry
  | same hsame =>
    rw [hsame.1]
    exact hentry
  | request | hangUp | guard | settle | park | send | release | settlePark | watch => exact hentry

end

/-! ## Every answer -/

namespace Calls

variable {subnet : Subnet} {calls next : Calls} {event : EdgeEvent} {id task : Nat} {name why : Str}
  {ok : VmInfo → Bool}

/-- The VM still runs under the name, or its record is to be found there. -/
def Awaits (calls : Calls) (ok : VmInfo → Bool) (name : Str) (task : Nat) : Prop :=
  calls.edge.agent.supervisors[task]? = some name ∨
    ∃ info log, calls.ended[task]? = some info ∧
      calls.edge.agent.vms[name]? = some (.ended info log) ∧ ok info = true

structure Sound (calls : Calls) : Prop where
  claimed : calls.edge.Claimed
  aimed : calls.edge.Aimed
  ended : ∀ {task : Nat} {info}, calls.ended[task]? = some info →
    task < calls.edge.agent.nextTask ∧ calls.edge.agent.supervisors[task]? = none
  parks : ∀ {id : Nat} {park} {task : Nat}, calls.edge.parks[id]? = some park →
    park.pc = .ending task → calls.Awaits isParked park.name task
  stops : ∀ {id : Nat} {call}, calls.stops[id]? = some call →
    calls.Awaits (fun _ => true) call.name call.target
  right : ∀ answer ∈ calls.answers, answer.Right

theorem sound_new {agent} (howned : Owned agent) : (new agent).Sound where
  claimed := .new howned
  aimed := .new agent
  ended := by simp [new]
  parks := by simp [new, Edge.new]
  stops := by simp [new]
  right := by simp [new]

/-- A call that reads the record of an ended VM is right. -/
theorem Awaits.endedInfo_eq (h : calls.Awaits ok name task)
    (hheard : calls.edge.agent.supervisors[task]? = none) :
    ∃ info, calls.ended[task]? = some info ∧ calls.edge.agent.endedInfo name = .ok info ∧
      ok info := by
  rcases h with hsup | ⟨info, log, hinfo, hentry, hok⟩
  · cases hheard.symm.trans hsup
  · exact ⟨info, hinfo, by rw [Agent.endedInfo, hentry], hok⟩

/-- What a step of the edge's system is to the calls. -/
theorem onEdge_eq_some (h : calls.onEdge subnet event why = some next) :
    calls.tellsWhy event ∧ ∃ edge, calls.edge.step subnet event = some edge ∧
      next = { calls with
        edge
        ended := calls.ends event
        answers := calls.given edge why event ++ calls.answers } := by
  unfold onEdge at h
  split at h
  · rename_i htells
    obtain ⟨edge, hstep, rfl⟩ := map_eq_some_iff.mp h
    exact ⟨htells, edge, hstep, rfl⟩
  · cases h

theorem ends_of_not_record (h : ¬ ∃ task ended, event = .recordEnd task ended) :
    calls.ends event = calls.ended := by
  unfold ends
  split
  · rename_i task ended
    exact absurd ⟨task, ended, rfl⟩ h
  · rfl

theorem mem_waiting_park {park} (hpark : calls.edge.parks[id]? = some park)
    (hpc : park.pc = .ending task) : (park.name, task) ∈ calls.waiting := by
  refine mem_append_left _ (mem_filterMap.mpr ⟨(id, park),
    mem_items.mpr hpark, ?_⟩)
  simp only [hpc]

theorem mem_waiting_stop {call} (hcall : calls.stops[id]? = some call) :
    (call.name, call.target) ∈ calls.waiting :=
  mem_append_right _ (List.mem_map.mpr ⟨(id, call),
    mem_items.mpr hcall, rfl⟩)

/-- The reason is `Parked` when a park waits for the end. -/
theorem parked_of_tells {ended} (h : calls.tellsWhy (.recordEnd task ended))
    {park} (hpark : calls.edge.parks[id]? = some park) (hpc : park.pc = .ending task)
    (info : VmInfo) : isParked (endedInfo info ended) := by
  have hany : (calls.edge.parks.toList.any fun item => item.2.pc == .ending task) :=
    List.any_eq_true.mpr ⟨(id, park), mem_items.mpr hpark,
      by simp [hpc]⟩
  rw [tellsWhy, hany, beq_true] at h
  exact h

variable (h : calls.Sound)
include h

theorem Sound.not_ended (hsup : calls.edge.agent.supervisors[task]? = some name) :
    calls.ended[task]? = none := by
  rw [eq_none_iff_forall_ne_some]
  intro info hinfo
  cases hsup.symm.trans (h.ended hinfo).2

theorem Sound.refusal_right {park answer}
    (hanswer : calls.refusal park why = some answer) : answer.Right := by
  unfold refusal at hanswer
  split at hanswer
  · cases hanswer
    cases calls.edge.agent.running park.name <;> rfl
  · cases hanswer
    rfl
  · rename_i task hpc
    split at hanswer
    · rename_i hopen
      obtain ⟨watched, hwatched, hpc⟩ := (Option.any_eq_true _ _).mp hopen
      obtain ⟨name, hsup⟩ := h.aimed.live hwatched (of_decide_eq_true hpc)
      cases hanswer
      rw [h.not_ended hsup]
      rfl
    · cases hanswer
      rfl
  · cases hanswer

theorem Sound.given_right {edge} (hstep : calls.edge.step subnet event = some edge) {answer}
    (hanswer : answer ∈ calls.given edge why event) : answer.Right := by
  unfold given at hanswer
  split at hanswer
  · rename_i id
    obtain ⟨park, hpark, hread⟩ := bind_eq_some_iff.mp (mem_toList.mp hanswer)
    unfold read at hread
    split at hread
    · rename_i task hpc
      cases hread
      have hheard : calls.edge.agent.supervisors[task]? = none := by
        simp only [Edge.step, Edge.heardEnd, hpark, bind_some, hpc] at hstep
        grind
      obtain ⟨info, hinfo, hreply, hparked⟩ := (h.parks hpark hpc).endedInfo_eq hheard
      simp [Answer.Right, hinfo, hreply, Except.toOption, filter_some, hparked]
    · cases hread
  · obtain ⟨item, -, hitem⟩ := mem_filterMap.mp hanswer
    split at hitem
    · exact h.refusal_right hitem
    · cases hitem

/-- The end of a VM is recorded, and its record is where its name is. -/
theorem Sound.recordEnd {ended edge}
    (hstep : calls.edge.step subnet (.recordEnd task ended) = some edge) :
    ∃ name info log, calls.edge.agent.supervisors[task]? = some name ∧
      calls.edge.agent.vms[name]? = some (.running info log task) ∧
      calls.ends (.recordEnd task ended) = calls.ended.insert task (endedInfo info ended) ∧
      edge.agent.supervisors = calls.edge.agent.supervisors.erase task ∧
      edge.agent.vms = Node.recordEnd calls.edge.agent.vms name ended ∧
      edge.parks = calls.edge.parks := by
  obtain ⟨watched, -, hstep⟩ := bind_eq_some_iff.mp hstep
  split at hstep
  · obtain ⟨agent, hagent, rfl⟩ := map_eq_some_iff.mp hstep
    obtain ⟨name, hsup, rfl⟩ := vmEnded_eq_some hagent
    obtain ⟨info, log, hentry, -⟩ := h.claimed.owned.supervisor_entry hsup
    refine ⟨name, info, log, hsup, hentry, ?_, rfl, rfl, rfl⟩
    simp only [ends, hsup, bind_some, hentry]
  · cases hstep

/-- A record that was made stays. -/
theorem Sound.ends_kept {info edge}
    (hstep : calls.edge.step subnet event = some edge) (hinfo : calls.ended[task]? = some info) :
    (calls.ends event)[task]? = some info := by
  by_cases hevent : ∃ other ended, event = .recordEnd other ended
  · obtain ⟨other, ended, rfl⟩ := hevent
    obtain ⟨name, _, _, hsup, _, hends, _⟩ := h.recordEnd hstep
    have hne : task ≠ other := by
      rintro rfl
      cases hsup.symm.trans (h.ended hinfo).2
    rw [hends, lookup_insert_of_ne _ hne, hinfo]
  · rw [ends_of_not_record hevent, hinfo]

/-- A VM whose end is recorded has no supervisor. -/
theorem Sound.ended_after {info edge} (hstep : calls.edge.step subnet event = some edge)
    (hinfo : (calls.ends event)[task]? = some info) :
    task < edge.agent.nextTask ∧ edge.agent.supervisors[task]? = none := by
  have hmove := (Edge.move_of_step hstep).agentMove
  have hbefore (hinfo : calls.ended[task]? = some info) :
      task < edge.agent.nextTask ∧ edge.agent.supervisors[task]? = none := by
    obtain ⟨hlt, hnone⟩ := h.ended hinfo
    refine ⟨hlt.trans_le hmove.nextTask_le, eq_none_iff_forall_ne_some.mpr ?_⟩
    intro name hsup
    cases hnone.symm.trans (hmove.supervisor_before hlt hsup)
  by_cases hevent : ∃ other ended, event = .recordEnd other ended
  · obtain ⟨other, ended, rfl⟩ := hevent
    obtain ⟨name, _, _, hsup, _, hends, hsups, _⟩ := h.recordEnd hstep
    rw [hends, lookup_insert] at hinfo
    split at hinfo
    · rename_i heq
      subst heq
      refine ⟨(h.claimed.owned.supervisor_lt hsup).trans_le hmove.nextTask_le, ?_⟩
      rw [hsups, lookup_erase, if_pos rfl]
    · exact hbefore hinfo
  · rw [ends_of_not_record hevent] at hinfo
    exact hbefore hinfo

/-- A step leaves a call what it waits for. -/
theorem Sound.awaits_after (honEdge : calls.onEdge subnet event why = some next)
    (hawaits : calls.Awaits ok name task)
    (hleaves : calls.ended[task]? = none ∨ calls.edge.takes subnet event ≠ some name)
    (hok : ∀ info ended, event = .recordEnd task ended → ok (endedInfo info ended)) :
    next.Awaits ok name task := by
  obtain ⟨-, edge, hstep, rfl⟩ := onEdge_eq_some honEdge
  rcases hawaits with hsup | ⟨info, log, hinfo, hentry, hgood⟩
  · by_cases hevent : ∃ other ended, event = .recordEnd other ended
    · obtain ⟨other, ended, rfl⟩ := hevent
      obtain ⟨found, info, log, hfound, hentry, hends, hsups, hvms, -⟩ := h.recordEnd hstep
      by_cases heq : task = other
      · subst heq
        cases hsup.symm.trans hfound
        refine .inr ⟨endedInfo info ended, log, ?_, ?_, hok info ended rfl⟩
        · show (calls.ends _)[task]? = _
          rw [hends, lookup_insert, if_pos rfl]
        · show edge.agent.vms[name]? = _
          rw [hvms, lookup_recordEnd hentry, if_pos rfl]
      · exact .inl (hsups ▸ (lookup_erase_of_ne heq).trans hsup)
    · exact .inl ((Edge.move_of_step hstep).supervisor_after h.claimed.owned
        (fun other ended heq => hevent ⟨other, ended, heq⟩) hsup)
  · have hkept := (Edge.move_of_step hstep).ended_after h.claimed.owned hentry
      (hleaves.resolve_left (by simp [hinfo]))
    exact .inr ⟨info, log, h.ends_kept hstep hinfo, hkept, hgood⟩

/-- What the edge's system does keeps the calls in order, as long as it leaves them the
records that they have yet to read. -/
theorem Sound.onEdge (honEdge : calls.onEdge subnet event why = some next)
    (hleaves : ∀ item ∈ calls.waiting, calls.ended[item.2]? = none ∨
      calls.edge.takes subnet event ≠ some item.1) : next.Sound := by
  obtain ⟨htells, edge, hstep, heq⟩ := onEdge_eq_some honEdge
  have hmove := Edge.move_of_step hstep
  have hedge : next.edge = edge := by rw [heq]
  constructor
  · rw [hedge]
    exact h.claimed.of_move hmove
  · rw [hedge]
    exact h.aimed.of_move h.claimed hmove
  · intro task info hinfo
    rw [heq] at hinfo
    rw [hedge]
    exact h.ended_after hstep hinfo
  · intro id park task hpark hpc
    rw [hedge] at hpark
    have hawaits : calls.Awaits isParked park.name task ∧
        (calls.ended[task]? = none ∨ (park.name, task) ∈ calls.waiting) := by
      rcases h.aimed.ending_of_move h.claimed hmove hpark hpc with hbefore | hsup
      · exact ⟨h.parks hbefore hpc, .inr (mem_waiting_park hbefore hpc)⟩
      · exact ⟨.inl hsup, .inl (h.not_ended hsup)⟩
    apply h.awaits_after honEdge hawaits.1
    · exact hawaits.2.elim .inl (hleaves _)
    · rintro info ended rfl
      obtain ⟨_, _, _, _, _, _, _, _, hparks⟩ := h.recordEnd hstep
      rw [hparks] at hpark
      exact parked_of_tells htells hpark hpc info
  · intro id call hcall
    rw [heq] at hcall
    exact h.awaits_after honEdge (h.stops hcall) (hleaves _ (mem_waiting_stop hcall))
      fun _ _ _ => rfl
  · intro answer hanswer
    rw [heq] at hanswer
    rcases mem_append.mp hanswer with hgiven | hbefore
    · exact h.given_right hstep hgiven
    · exact h.right answer hbefore

theorem Sound.step {event} (hleaves : calls.leavesRecords subnet event)
    (hstep : calls.step subnet event = some next) : next.Sound := by
  cases event with
  | edge event why => exact h.onEdge hstep (by simpa [leavesRecords] using hleaves)
  | stopVm name force =>
    simp only [Calls.step] at hstep
    split at hstep
    · rename_i target hrunning
      cases hstep
      have hsup : calls.edge.agent.supervisors[target]? = some name := by
        unfold Agent.running at hrunning
        split at hrunning <;> cases hrunning
        rename_i hentry
        exact h.claimed.owned.running_supervisor hentry
      exact { h with stops := fun hcall => forall_insert (.inl hsup) h.stops hcall }
    · cases hstep
      exact h
  | sendStop id =>
    obtain ⟨call, hcall, hstep⟩ := bind_eq_some_iff.mp hstep
    split at hstep
    · cases hstep
    · obtain ⟨sent, hsent, rfl⟩ := map_eq_some_iff.mp hstep
      have hsound : sent.Sound ∧ sent.stops = calls.stops := by
        split at hsent
        · cases hsent
          exact ⟨h, rfl⟩
        · obtain ⟨-, edge, -, heq⟩ := onEdge_eq_some hsent
          exact ⟨h.onEdge hsent fun _ _ => .inr (by simp [Edge.takes]), by rw [heq]⟩
      rw [← hsound.2] at hcall
      exact { hsound.1 with
        stops := fun hfound => forall_insert (hsound.1.stops hcall :) hsound.1.stops hfound }
  | hearStop id =>
    obtain ⟨call, hcall, hstep⟩ := bind_eq_some_iff.mp hstep
    split at hstep
    · rename_i hheard
      cases hstep
      simp only [Bool.and_eq_true, isNone_iff_eq_none] at hheard
      obtain ⟨info, hinfo, hreply, -⟩ := (h.stops hcall).endedInfo_eq hheard.2
      refine { h with
        stops := fun hfound => h.stops (of_lookup_erase hfound).2
        right := ?_ }
      intro answer hanswer
      rcases mem_cons.mp hanswer with rfl | hbefore
      · simp [Answer.Right, hinfo, hreply, Except.toOption]
      · exact h.right answer hbefore
    · cases hstep

end Calls

/-- However clients, the edge and the VMs' supervisors are scheduled: if no name is woken,
run again or removed between the record of a VM's end and the read of a park or a stop
that waits for it, then a park succeeds exactly if the VM whose supervisor took it has
ended as parked, and a park that succeeds and every stop answer with that VM's record. -/
theorem answers_are_about_own_vm (subnet : Subnet) (isRunning : Ipv4Addr → ProcessId → Bool)
    (now : Nat) (rows : Rows) (machines : Machines) {start : Agent} {calls : Calls}
    {schedule : List CallEvent}
    (hstart : Agent.empty.reconcile isRunning now rows.load = some start)
    (hrun : run (Calls.step · subnet) (.new { start with machines }) schedule = some calls)
    (hleaves : Along (Calls.step · subnet)
      (fun calls event => calls.leavesRecords subnet event = true)
      (.new { start with machines }) schedule) : ∀ answer ∈ calls.answers, answer.Right := by
  have hsound := run_preserves (fun hok hinv hstep => Calls.Sound.step hinv hok hstep)
    (Calls.sound_new (.start hstart machines)) hleaves hrun
  exact hsound.right

/-- A VM is stopped and parked at once. A request wakes it when its end is recorded, and
the VM that woke ends by itself before the stop looks. -/
def wokenTooSoon : List CallEvent :=
  let web := "web".toList
  let steps (events : List EdgeEvent) := events.map fun event => CallEvent.edge event []
  steps [.runVm (.sample web (some ⟨"web.example", 80, none⟩)) "web-0.log",
      .begin 0, .finish 0 (.launched 5), .settle 0] ++
    [.stopVm web false] ++
    steps [.claimPark web, .beginPark 0, .lookUp 0, .send 0, .deliver 1, .parkEnds 1 .parked,
      .close 1, .recordEnd 1 ⟨6, .parked⟩,
      .resolve "web.example", .listen 0, .look 0 none, .wake 0 true, .heardEnd 0,
      .begin 2, .finish 2 (.launched 7), .vmEnds 3, .close 3, .recordEnd 3 ⟨8, .exited⟩] ++
    [.sendStop 0, .hearStop 0]

/-- The park has parked its VM and answers with an error, and the stop answers with the end
of the VM that woke. -/
theorem answers_about_another_vm :
    ∃ calls, run (Calls.step · .sample) (.new .empty) wokenTooSoon = some calls ∧
      calls.answers.map (fun answer => (answer.call, answer.record.bind (·.ended),
        answer.reply.toOption.bind (·.ended))) =
        [(.stop, some ⟨6, .parked⟩, some ⟨8, .exited⟩), (.park, some ⟨6, .parked⟩, none)] ∧
      ∀ answer ∈ calls.answers, ¬ answer.Right := by
  decide +kernel

/-- The theorem applies: nobody wakes the VM. -/
theorem answers_right_after_park :
    ∃ calls, run (Calls.step · .sample) (.new .empty) (wokenTooSoon.take 13 ++
        [.edge (.heardEnd 0) [], .sendStop 0, .hearStop 0]) = some calls ∧
      calls.answers.length = 2 ∧ ∀ answer ∈ calls.answers, answer.Right := by
  obtain ⟨calls, hrun, hlength⟩ : ∃ calls, run (Calls.step · .sample) (.new .empty)
        (wokenTooSoon.take 13 ++ [.edge (.heardEnd 0) [], .sendStop 0, .hearStop 0]) = some calls ∧
      calls.answers.length = 2 := by
    decide +kernel
  exact ⟨calls, hrun, hlength,
    answers_are_about_own_vm .sample (fun _ _ => false) 0 ∅ ∅ reconcile_nothing hrun
      (by decide +kernel)⟩

end Cirrocumulus.Node
