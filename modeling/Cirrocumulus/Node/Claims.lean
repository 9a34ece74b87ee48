/-
# Whose park a supervisor takes up

A park claims the traffic of the VM that runs under a name, and its task then looks for a
VM under that name again. At most one park holds a VM's claim, and a park reaches another
VM than the one it claimed only if that VM was handed to its supervisor in between.
-/

import Cirrocumulus.Lib.Pools
import Cirrocumulus.Node.EdgeMoves

namespace Cirrocumulus.Node

open Std (ExtTreeMap)
open Lib List Option

variable {id task : Nat} {park : Park} {watched : Watched} {name : Str} {pc : ParkPc}

/-! ## Who holds a claim -/

/-- The park's task holds the claim on the traffic of the VM of supervisor `task`. -/
def Park.Claims (park : Park) (task : Nat) (_ : Unit) : Prop :=
  park.holds = true ∧ park.traffic = task

/-- Each park on the list is on it once, and waits for the answer of supervisor `task`. -/
def Waiting (parks : ExtTreeMap Nat Park compare) (task : Nat) (asked : List Nat) : Prop :=
  asked.Nodup ∧ ∀ id ∈ asked, ∃ park, parks[id]? = some park ∧ park.pc = .sent task

theorem Waiting.insert {parks asked} (h : Waiting parks task asked) (hid : id ∉ asked) :
    Waiting (parks.insert id park) task asked := by
  refine ⟨h.1, fun other hother => ?_⟩
  obtain ⟨found, hfound, hsent⟩ := h.2 other hother
  have hne : other ≠ id := fun heq => hid (heq ▸ hother)
  exact ⟨found, (lookup_insert_of_ne _ hne).trans hfound, hsent⟩

/-- The claims, the flags they set and the tasks that hold them agree, and each message
that asks for a park is from a task that waits for its answer. -/
structure Edge.Claimed (edge : Edge) : Prop where
  owned : Owned edge.agent
  watched : ∀ {task : Nat} {name : Str}, edge.agent.supervisors[task]? = some name →
    ∃ watched, edge.watches[task]? = some watched
  watched_lt : ∀ {task : Nat} {watched}, edge.watches[task]? = some watched →
    task < edge.agent.nextTask
  park_lt : ∀ {id : Nat} {park}, edge.parks[id]? = some park → id < edge.nextPark
  claims : Lib.Pooled edge.parks Park.Claims fun task _ => edge.isParking task
  name : ∀ {id : Nat} {park} {name : Str}, edge.parks[id]? = some park →
    park.holds → edge.agent.supervisors[park.traffic]? = some name → name = park.name
  closed : ∀ {task : Nat} {watched}, edge.watches[task]? = some watched →
    watched.pc = .closed → watched.inbox = []
  asked : ∀ {task : Nat} {watched}, edge.watches[task]? = some watched →
    Waiting edge.parks task watched.asked

theorem Park.holds_of_pc (h : park.pc = pc) (hpc : pc ≠ .settle) : park.holds := by
  simp [holds, h, hpc]

theorem Edge.isParking_insert (edge : Edge) (task : Nat) (watched : Watched) (other : Nat) :
    (edge.watches.insert task watched)[other]?.any (·.parking) =
      if other = task then watched.parking else edge.isParking other := by
  rw [lookup_insert]
  split <;> rfl

namespace Edge.Claimed

/-- An agent that has taken its records back has no parks. -/
theorem new {agent} (h : Owned agent) : (Edge.new agent).Claimed := by
  have hfresh {task : Nat} {watched}
      (hwatched : (Edge.new agent).watches[task]? = some watched) :
      (∃ name, agent.supervisors[task]? = some name) ∧ watched = .fresh := by
    simp only [Edge.new, ExtTreeMap.getElem?_map, map_eq_some_iff] at hwatched
    obtain ⟨name, hsup, rfl⟩ := hwatched
    exact ⟨⟨name, hsup⟩, rfl⟩
  refine ⟨h, fun {task name} hsup => ?_, fun hwatched => ?_, by simp [Edge.new], ⟨?_, ?_⟩,
    by simp [Edge.new], fun hwatched _ => ?_, fun hwatched => ?_⟩
  · have hsup' : agent.supervisors[task]? = some name := hsup
    exact ⟨.fresh, by simp [Edge.new, hsup']⟩
  · obtain ⟨⟨name, hsup⟩, -⟩ := hfresh hwatched
    exact h.supervisor_lt hsup
  · intro task _
    cases hsup : agent.supervisors[task]? <;> simp [Edge.isParking, Edge.new, hsup, Watched.fresh]
  · simp [Edge.new]
  · rw [(hfresh hwatched).2]
    rfl
  · rw [(hfresh hwatched).2]
    simp [Waiting, Watched.asked, Watched.fresh]

variable {edge next : Edge} (h : edge.Claimed)
include h

/-- Nothing happens to a park, a claim or a channel, and no VM is handed over. -/
theorem of_agent (howned : Owned next.agent)
    (hsup : ∀ (task : Nat) (name : Str), next.agent.supervisors[task]? = some name →
      edge.agent.supervisors[task]? = some name) (hle : edge.agent.nextTask ≤ next.agent.nextTask)
    (hwatches : next.watches = edge.watches) (hparks : next.parks = edge.parks)
    (hnext : next.nextPark = edge.nextPark) : next.Claimed where
  owned := howned
  watched := by
    intro task name hsup'
    rw [hwatches]
    exact h.watched (hsup task name hsup')
  watched_lt := by
    rw [hwatches]
    exact fun hwatched => (h.watched_lt hwatched).trans_le hle
  park_lt := by
    rw [hparks, hnext]
    exact h.park_lt
  claims := by
    have hsame : next.isParking = edge.isParking := by
      funext task
      rw [Edge.isParking, hwatches, Edge.isParking]
    rw [hparks, hsame]
    exact h.claims
  name := by
    rw [hparks]
    exact fun hpark hholds hsup' => h.name hpark hholds (hsup _ _ hsup')
  closed := by
    rw [hwatches]
    exact h.closed
  asked := by
    rw [hparks, hwatches]
    exact h.asked

/-- A supervisor goes on, and its VM's flag stays. -/
theorem setWatch {pc inbox} (hwatched : edge.watches[task]? = some watched)
    (hclosed : pc = .closed → inbox = [])
    (hasked : Waiting edge.parks task (Watched.asked ⟨pc, inbox, watched.parking⟩)) :
    (edge.setWatch task { watched with pc, inbox }).Claimed where
  owned := h.owned
  watched := fun hsup => exists_insert (h.watched hsup)
  watched_lt := fun hfound => forall_insert (h.watched_lt hwatched) h.watched_lt hfound
  park_lt := h.park_lt
  claims := by
    have hsame : (edge.setWatch task { watched with pc, inbox }).isParking = edge.isParking := by
      funext other
      rw [Edge.isParking, Edge.setWatch, edge.isParking_insert]
      split
      · rename_i heq
        simp [Edge.isParking, heq, hwatched]
      · rfl
    rw [hsame]
    exact h.claims
  name := h.name
  closed := fun hfound => forall_insert hclosed h.closed hfound
  asked := fun hfound => forall_insert hasked h.asked hfound

/-- A VM's flag has no part in who is asked for. -/
theorem asked_setParking (hwatched : edge.watches[task]? = some watched)
    (parking : Bool) {other} {found}
    (hfound : (edge.watches.insert task { watched with parking })[other]? = some found) :
    Waiting edge.parks other found.asked :=
  forall_insert (h.asked hwatched :) h.asked hfound

/-- A free claim is taken: no park held it. -/
theorem take {info} {log : Str} (hentry : edge.agent.vms[name]? = some (.running info log task))
    (htake : edge.take name task = some next) : next.Claimed := by
  obtain ⟨watched, hwatched, hparking, rfl⟩ := take_eq_some htake
  have hfree : edge.isParking task = false := by
    rw [Edge.isParking, hwatched, any_some, hparking]
  have hold {id : Nat} {park} (hpark : edge.parks[id]? = some park) :
      id ≠ edge.nextPark := (h.park_lt hpark).ne
  refine ⟨h.owned, fun hsup => exists_insert (h.watched hsup),
    fun hfound => forall_insert (h.watched_lt hwatched) h.watched_lt hfound,
    fun hfound => forall_insert (Nat.lt_succ_self _)
      (fun hfound => (h.park_lt hfound).trans (Nat.lt_succ_self _)) hfound,
    h.claims.insert ?_ ?_, ?_,
    fun hfound => forall_insert (h.closed hwatched :) h.closed hfound, ?_⟩
  · intro other _
    rw [Edge.isParking, Edge.setPark, Edge.setWatch, edge.isParking_insert]
    have hnew : edge.parks[edge.nextPark]? = none :=
      eq_none_iff_forall_ne_some.mpr fun park hpark => hold hpark rfl
    by_cases heq : other = task
    · simp [Park.Claims, Park.holds, heq]
    · simp [Park.Claims, hnew, heq, Ne.symm heq]
  · rintro other _ _ ⟨-, rfl⟩ hparking
    cases hfree.symm.trans hparking
  · intro other found owner hfound hheld hsup
    obtain ⟨-, rfl⟩ | ⟨-, hfound⟩ := of_lookup_insert hfound
    · cases (h.owned.running_supervisor hentry).symm.trans hsup
      rfl
    · exact h.name hfound hheld hsup
  · intro other found hfound
    have hwaits := h.asked_setParking hwatched true hfound
    refine hwaits.insert fun hmem => ?_
    obtain ⟨park, hpark, -⟩ := hwaits.2 _ hmem
    exact hold hpark rfl

theorem takeAll (idle : List Str) : (edge.parkIdleApps idle).Claimed :=
  parkIdleApps_induction h (fun hclaimed hentry htake => hclaimed.take hentry htake) idle

section

variable (hpark : edge.parks[id]? = some park)
include hpark

theorem isParking (hholds : park.holds) : edge.isParking park.traffic :=
  (h.claims.mem (b := ())).mpr ⟨id, park, hpark, hholds, rfl⟩

/-- A park whose answer nobody owes is not asked for. -/
theorem not_asked
    (hunsent : ∀ target, park.pc = .sent target → edge.watches[target]?.any (·.pc = .closed))
    (hwatched : edge.watches[task]? = some watched) : id ∉ watched.asked := by
  intro hmem
  obtain ⟨found, hfound, hsent⟩ := (h.asked hwatched).2 id hmem
  cases hpark.symm.trans hfound
  have hclosed := hunsent task hsent
  simp only [hwatched, any_some, decide_eq_true_eq] at hclosed
  simp [Watched.asked, hclosed, h.closed hwatched hclosed] at hmem

/-- A park's task goes on, and keeps its claim. -/
theorem setPark (hholds : park.holds) (hpc : pc ≠ .settle)
    (hasked : ∀ {task : Nat} {watched}, edge.watches[task]? = some watched →
      id ∉ watched.asked) : (edge.setPark id { park with pc }).Claimed where
  owned := h.owned
  watched := h.watched
  watched_lt := h.watched_lt
  park_lt := fun hfound => forall_insert (h.park_lt hpark) h.park_lt hfound
  claims := h.claims.update hpark fun task _ => by
    have hkept : { park with pc }.holds := Park.holds_of_pc rfl hpc
    simp only [Park.Claims, hholds, hkept]
  name := fun hfound => forall_insert (fun _ => (h.name hpark hholds :)) h.name hfound
  closed := h.closed
  asked := fun hwatched => (h.asked hwatched).insert (hasked hwatched)

/-- A claim is released: nobody else held it. -/
theorem release (hpc : park.pc = .release) (hwatched : edge.watches[park.traffic]? = some watched) :
    ((edge.setPark id { park with pc := .settle }).setWatch park.traffic
      { watched with parking := false }).Claimed := by
  have hholds : park.holds := Park.holds_of_pc hpc (by simp)
  refine ⟨h.owned, fun hsup => exists_insert (h.watched hsup),
    fun hfound => forall_insert (h.watched_lt hwatched) h.watched_lt hfound,
    fun hfound => forall_insert (h.park_lt hpark) h.park_lt hfound,
    h.claims.insert ?_ ?_,
    fun hfound => forall_insert (fun hheld => by cases hheld) h.name hfound,
    fun hfound => forall_insert (h.closed hwatched :) h.closed hfound, ?_⟩
  · intro task _
    rw [Edge.isParking, Edge.setWatch, Edge.setPark, edge.isParking_insert]
    by_cases heq : task = park.traffic
    · simp [Park.Claims, Park.holds, heq, hpark, hpc]
    · simp [Park.Claims, Park.holds, heq, hpark, Ne.symm heq]
  · rintro task _ _ ⟨hheld, -⟩
    cases hheld
  · intro other found hfound
    have hwaits := h.asked_setParking hwatched false hfound
    refine hwaits.insert fun hmem => ?_
    obtain ⟨before, hbefore, hsent⟩ := hwaits.2 id hmem
    cases hpark.symm.trans hbefore
    cases hpc.symm.trans hsent

/-- A park that has released its claim is gone. -/
theorem settlePark (hpc : park.pc = .settle) :
    { edge with parks := edge.parks.erase id }.Claimed := by
  refine ⟨h.owned, h.watched, h.watched_lt,
    fun hfound => h.park_lt (of_lookup_erase hfound).2,
    h.claims.erase hpark fun task _ hclaims => ?_,
    fun hfound => h.name (of_lookup_erase hfound).2, h.closed, ?_⟩
  · simp [Park.Claims, Park.holds, hpc] at hclaims
  · intro task watched hwatched
    refine ⟨(h.asked hwatched).1, fun asking hasking => ?_⟩
    obtain ⟨found, hfound, hsent⟩ := (h.asked hwatched).2 asking hasking
    refine ⟨found, (lookup_erase_of_ne ?_).trans hfound, hsent⟩
    rintro rfl
    cases hpark.symm.trans hfound
    cases hpc.symm.trans hsent

/-- A park's message goes into a channel that is open. -/
theorem send {target} (hpc : park.pc = .send target)
    (hwatched : edge.watches[target]? = some watched) (hopen : watched.pc ≠ .closed) :
    ((edge.setPark id { park with pc := .sent target }).setWatch target
      { watched with inbox := watched.inbox ++ [.park id] }).Claimed := by
  have hnew {task : Nat} {found} (hfound : edge.watches[task]? = some found) :
      id ∉ found.asked :=
    h.not_asked hpark (fun other heq => by cases hpc.symm.trans heq) hfound
  have hsent : (edge.setPark id { park with pc := .sent target }).Claimed :=
    h.setPark hpark (Park.holds_of_pc hpc (by simp)) (by simp) hnew
  have hasked : Watched.asked ⟨watched.pc, watched.inbox ++ [.park id], watched.parking⟩ =
      watched.asked ++ [id] := by
    simp [Watched.asked, Message.asksPark]
  refine hsent.setWatch hwatched (fun hclosed => absurd hclosed hopen) ?_
  rw [hasked]
  refine ⟨?_, fun asking hasking => ?_⟩
  · rw [nodup_append]
    refine ⟨(h.asked hwatched).1, pairwise_singleton _ id, ?_⟩
    rintro other hother _ hid rfl
    exact hnew hwatched (mem_singleton.mp hid ▸ hother)
  · rcases mem_append.mp hasking with hold | hthis
    · exact (hsent.asked hwatched).2 asking hold
    · rw [mem_singleton.mp hthis]
      exact ⟨_, (lookup_insert edge.parks id _ id).trans (if_pos rfl), rfl⟩

end

/-- A VM is handed to a new supervisor, and nobody has claimed it yet. -/
theorem launched {agent} (howned : Owned agent) (hsup : ∀ task : Nat, agent.supervisors[task]? =
      if task = edge.agent.nextTask then some name else edge.agent.supervisors[task]?)
    (hnext : agent.nextTask = edge.agent.nextTask + 1) :
    { edge with agent, watches := edge.watches.insert edge.agent.nextTask .fresh }.Claimed := by
  have hold {task : Nat} {watched} (hwatched : edge.watches[task]? = some watched) :
      task ≠ edge.agent.nextTask := (h.watched_lt hwatched).ne
  have hfresh : edge.watches[edge.agent.nextTask]? = none :=
    eq_none_iff_forall_ne_some.mpr fun watched hwatched => hold hwatched rfl
  have hsame : { edge with
      agent, watches := edge.watches.insert edge.agent.nextTask .fresh }.isParking =
      edge.isParking := by
    funext task
    rw [Edge.isParking, edge.isParking_insert]
    split
    · rename_i heq
      simp [Edge.isParking, heq, hfresh, Watched.fresh]
    · rfl
  refine ⟨howned, ?_, ?_, h.park_lt, by rw [hsame]; exact h.claims, ?_,
    fun hfound => forall_insert (fun _ => rfl) h.closed hfound,
    fun hfound => forall_insert (by simp [Waiting, Watched.asked, Watched.fresh]) h.asked hfound⟩
  · intro task owner howner
    simp only [hsup, lookup_insert] at howner ⊢
    by_cases heq : task = edge.agent.nextTask
    · exact ⟨_, if_pos heq⟩
    · rw [if_neg heq] at howner ⊢
      exact h.watched howner
  · intro task watched hwatched
    simp only [hnext, lookup_insert] at hwatched ⊢
    split at hwatched
    · omega
    · exact (h.watched_lt hwatched).trans (Nat.lt_succ_self _)
  · intro id park owner hpark hheld howner
    obtain ⟨watched, hwatched, -⟩ := (Option.any_eq_true _ _).mp (h.isParking hpark hheld)
    simp only [hsup, if_neg (hold hwatched)] at howner
    exact h.name hpark hheld howner

/-- A supervisor answers a park, which waits for it. -/
theorem answer {pc inbox parkPc} (hwatched : edge.watches[task]? = some watched)
    (hasked : (id :: Watched.asked ⟨pc, inbox, watched.parking⟩).Sublist watched.asked)
    (hpc : parkPc ≠ .settle) (hopen : pc ≠ .closed) :
    ((edge.answer id parkPc).setWatch task { watched with pc, inbox }).Claimed := by
  obtain ⟨hnodup, hwaits⟩ := h.asked hwatched
  obtain ⟨park, hpark, hsent⟩ := hwaits id (hasked.subset mem_cons_self)
  have hrest : (edge.setWatch task { watched with pc, inbox }).Claimed := by
    refine h.setWatch hwatched (fun hclosed => absurd hclosed hopen) ?_
    exact ⟨(nodup_cons.mp (hnodup.sublist hasked)).2,
      fun other hother => hwaits other (hasked.subset (mem_cons_of_mem id hother))⟩
  have hset : (edge.answer id parkPc).setWatch task { watched with pc, inbox } =
      (edge.setWatch task { watched with pc, inbox }).setPark id { park with pc := parkPc } := by
    simp only [Edge.answer, hpark]
    rfl
  rw [hset]
  refine hrest.setPark hpark (Park.holds_of_pc hsent (by simp)) hpc ?_
  intro other found hfound hmem
  obtain ⟨-, rfl⟩ | ⟨hne, hfound⟩ := of_lookup_insert hfound
  · exact (nodup_cons.mp (hnodup.sublist hasked)).1 hmem
  · obtain ⟨found', hfound', hsent'⟩ := (h.asked hfound).2 id hmem
    cases hpark.symm.trans hfound'
    cases hsent.symm.trans hsent'
    exact hne rfl

end Edge.Claimed

section

variable {subnet : Subnet} {edge next : Edge} {event : EdgeEvent}

/-- Every step keeps the claims in order. -/
theorem Edge.Claimed.of_move (h : edge.Claimed) (hmove : EdgeMove subnet edge event next) :
    next.Claimed := by
  have howned : Owned next.agent := h.owned.of_move hmove.agentMove
  cases hmove with
  | request | hangUp | guard | settle | removed =>
    exact h.of_agent howned (fun _ _ hsup => hsup) le_rfl rfl rfl rfl
  | reserve =>
    exact h.of_agent howned (fun _ _ hsup => hsup) (Nat.le_succ _) rfl rfl rfl
  | ended hguard _ hend =>
    refine h.of_agent howned ?_ ?_ rfl rfl rfl
    · intro task name hsup
      rw [hend.next_eq] at hsup
      exact hsup
    · rw [hend.next_eq]
      exact le_rfl
  | @launched task startedAt guard launch hguard hlaunch =>
    exact (h.launched howned (lookup_insert _ _ _) rfl).of_agent howned
      (fun _ _ hsup => hsup) le_rfl rfl rfl rfl
  | take hentry htake => exact h.take hentry htake
  | takeAll idle => exact h.takeAll idle
  | park hpark hstep =>
    cases hstep with
    | begin hpc | found hpc =>
      exact h.setPark hpark (Park.holds_of_pc hpc (by simp)) (by simp)
        (h.not_asked hpark fun target heq => by cases hpc.symm.trans heq)
    | giveUp hpc hunsent =>
      exact h.setPark hpark (Park.holds_of_pc rfl hpc) (by simp) (h.not_asked hpark hunsent)
  | send hpark hpc hwatched hopen => exact h.send hpark hpc hwatched hopen
  | release hpark hpc hwatched => exact h.release hpark hpc hwatched
  | settlePark hpark hpc =>
    exact (h.settlePark hpark hpc).of_agent howned (fun _ _ hsup => hsup) le_rfl rfl rfl rfl
  | watch hwatched hasked hopen hclosed =>
    obtain ⟨hnodup, hwaits⟩ := h.asked hwatched
    exact h.setWatch hwatched hclosed
      ⟨hnodup.sublist hasked, fun id hid => hwaits id (hasked.subset hid)⟩
  | answer hwatched hasked hpc hopen =>
    refine h.answer hwatched hasked ?_ hopen
    rintro rfl
    rcases hpc with hpc | hpc <;> cases hpc
  | recordEnd ended hwatched hpc hsup =>
    exact h.of_agent howned (fun _ _ hfound => (of_lookup_erase hfound).2) le_rfl rfl rfl rfl
  | same hsame =>
    refine h.of_agent howned ?_ hsame.2.2.2.ge rfl rfl rfl
    intro task name hsup
    rw [← hsame.2.2.1]
    exact hsup

end

/-! ## Which VM a park reaches -/

/-- The park's task has yet to look its VM up. -/
def Park.unlooked (park : Park) : Bool := park.pc == .spawned || park.pc == .lookUp

/-- The VM that a park's task has found. -/
def ParkPc.target : ParkPc → Option Nat
  | .send target | .sent target | .ending target => some target
  | _ => none

/-- A VM is handed to its supervisor only when no park of its name has yet to look its
VM up. -/
def Edge.handsOverLooked (edge : Edge) : EdgeEvent → Bool
  | .finish task (.launched _) =>
    edge.agent.launches[task]?.all fun launch => edge.parks.toList.all fun item =>
      !(item.2.name == launch.name && item.2.unlooked)
  | _ => true

/-- A park finds the VM it claimed, or none. -/
structure Edge.Targets (edge : Edge) : Prop where
  ahead : ∀ {id : Nat} {park}, edge.parks[id]? = some park → park.unlooked →
    ∀ {info} {log : Str} {task : Nat},
      edge.agent.vms[park.name]? = some (.running info log task) → task = park.traffic
  target : ∀ {id : Nat} {park} {task : Nat}, edge.parks[id]? = some park →
    park.pc.target = some task → task = park.traffic

namespace Edge.Targets

theorem new (agent : Agent) : (Edge.new agent).Targets where
  ahead := by simp [Edge.new]
  target := by simp [Edge.new]

variable {subnet : Subnet} {edge next : Edge} {event : EdgeEvent} (h : edge.Targets)
include h

/-- No VM is handed over, and no park begins. -/
theorem of_running
    (hparks : ∀ {id : Nat} {park}, next.parks[id]? = some park → edge.parks[id]? = some park)
    (hrunning : ∀ {name : Str} {info} {log : Str} {task : Nat},
      next.agent.vms[name]? = some (.running info log task) →
        edge.agent.vms[name]? = some (.running info log task)) : next.Targets where
  ahead := fun hpark hahead _ _ _ hentry => h.ahead (hparks hpark) hahead (hrunning hentry)
  target := fun hpark => h.target (hparks hpark)

/-- One park goes on, to a VM that is its own. -/
theorem setPark (hahead : park.unlooked → ∀ {info} {log : Str} {task : Nat},
      edge.agent.vms[park.name]? = some (.running info log task) → task = park.traffic)
    (htarget : ∀ {task : Nat}, park.pc.target = some task → task = park.traffic) :
    (edge.setPark id park).Targets where
  ahead := fun hfound => forall_insert hahead h.ahead hfound
  target := fun hfound => forall_insert htarget h.target hfound

/-- A park that is past looking its VM up goes on. -/
theorem setPark_looked (hlooked : Park.unlooked { park with pc } = false)
    (htarget : ∀ {task : Nat}, pc.target = some task → task = park.traffic) :
    (edge.setPark id { park with pc }).Targets :=
  h.setPark (fun hahead => by rw [hlooked] at hahead; cases hahead) htarget

theorem take {info} {log : Str} (hentry : edge.agent.vms[name]? = some (.running info log task))
    (htake : edge.take name task = some next) : next.Targets := by
  obtain ⟨watched, -, -, rfl⟩ := take_eq_some htake
  have hset : (edge.setPark edge.nextPark ⟨name, task, .spawned⟩).Targets := by
    apply h.setPark
    · intro _ info' log' task' hentry'
      cases hentry.symm.trans hentry'
      rfl
    · intro task' htarget
      cases htarget
  exact hset.of_running id id

theorem takeAll (idle : List Str) : (edge.parkIdleApps idle).Targets :=
  parkIdleApps_induction h (fun htargets hentry htake => htargets.take hentry htake) idle

/-- A VM is handed over, and no park of its name is about to look its VM up. -/
theorem launched {startedAt launch} (hlaunch : edge.agent.launches[task]? = some launch)
    (hlooked : edge.handsOverLooked (.finish task (.launched startedAt)))
    (hparks : next.parks = edge.parks)
    (hvms : next.agent.vms = startSupervising (edge.agent.vms.erase launch.name)
      (launch.info startedAt) launch.log edge.agent.nextTask) : next.Targets where
  ahead := by
    intro id park hpark hahead info log found hentry
    rw [hparks] at hpark
    rw [hvms, startSupervising, lookup_insert, lookup_erase] at hentry
    split at hentry
    · rename_i hname
      simp only [handsOverLooked, hlaunch, all_some, List.all_eq_true] at hlooked
      have hthis := hlooked (id, park)
        (mem_items.mpr hpark)
      simp only [hahead, Bool.and_true, Bool.not_eq_true'] at hthis
      have hne : park.name ≠ launch.name := by simpa using hthis
      exact absurd hname hne
    · rename_i hne
      have hother : park.name ≠ launch.name := hne
      rw [if_neg hother] at hentry
      exact h.ahead hpark hahead hentry
  target := by
    rw [hparks]
    exact h.target

/-- Every step at which no VM is handed over too early keeps the parks on their own VMs. -/
theorem of_move (hclaimed : edge.Claimed)
    (hmove : EdgeMove subnet edge event next) (hlooked : edge.handsOverLooked event) :
    next.Targets := by
  cases hmove with
  | request | hangUp | guard | settle | watch => exact h.of_running id id
  | reserve =>
    refine h.of_running id ?_
    intro name info log task hentry
    obtain ⟨-, ⟨⟩⟩ | ⟨-, hentry⟩ := of_lookup_insert hentry
    exact hentry
  | @ended task how guard agent launch left hguard _ hend =>
    refine h.of_running id ?_
    intro name info log task hentry
    rw [hend.vms_eq name] at hentry
    split at hentry
    · cases left <;> cases hentry
    · exact hentry
  | launched hguard hlaunch => exact h.launched hlaunch hlooked rfl rfl
  | take hentry htake => exact h.take hentry htake
  | takeAll idle => exact h.takeAll idle
  | park hpark hstep =>
    cases hstep with
    | begin hpc =>
      refine h.setPark ?_ (fun htarget => by cases htarget)
      intro _ info log task hentry
      exact (h.ahead hpark (by simp [Park.unlooked, hpc]) hentry :)
    | found hpc hentry =>
      refine h.setPark_looked rfl ?_
      rintro task htarget
      cases htarget
      exact h.ahead hpark (by simp [Park.unlooked, hpc]) hentry
    | giveUp => exact h.setPark_looked rfl (fun htarget => by cases htarget)
  | @send event id target park watched hpark hpc =>
    have hsent : (edge.setPark id { park with pc := .sent target }).Targets :=
      h.setPark_looked rfl fun htarget => h.target hpark (by rw [hpc]; exact htarget)
    exact hsent.of_running (fun hfound => hfound) (fun hentry => hentry)
  | @release event id park watched hpark hpc =>
    have hreleased : (edge.setPark id { park with pc := .settle }).Targets :=
      h.setPark_looked rfl fun htarget => by cases htarget
    exact hreleased.of_running (fun hfound => hfound) (fun hentry => hentry)
  | settlePark =>
    exact h.of_running (fun hfound => (of_lookup_erase hfound).2) id
  | @answer event task id watched pc inbox parkPc hwatched hasked hpc hopen =>
    obtain ⟨park, hpark, hsent⟩ := (hclaimed.asked hwatched).2 id (hasked.subset mem_cons_self)
    have hset : edge.answer id parkPc = edge.setPark id { park with pc := parkPc } := by
      simp only [Edge.answer, hpark]
    have hanswered : (edge.setPark id { park with pc := parkPc }).Targets := by
      rcases hpc with rfl | rfl
      · exact h.setPark_looked rfl fun htarget => by cases htarget
      · exact h.setPark_looked rfl fun htarget => h.target hpark (by rw [hsent]; exact htarget)
    rw [hset]
    exact hanswered.of_running (fun hfound => hfound) (fun hentry => hentry)
  | @recordEnd task name watched ended hwatched hpc hsup =>
    obtain ⟨info, log, hentry, -⟩ := hclaimed.owned.supervisor_entry hsup
    refine h.of_running id ?_
    intro other info' log' task' hother
    rw [lookup_recordEnd hentry] at hother
    split at hother
    · cases hother
    · exact hother
  | removed hended =>
    exact h.of_running id fun hentry => (of_lookup_erase hentry).2
  | same hsame =>
    refine h.of_running id ?_
    rw [hsame.1]
    exact id

end Edge.Targets

/-- The park's task holds the claim on the traffic of the VM of supervisor `task`. -/
def Edge.HoldsClaim (edge : Edge) (id task : Nat) : Prop :=
  ∃ park, edge.parks[id]? = some park ∧ park.holds = true ∧ park.traffic = task

/-- Every park that a supervisor is asked for, or has taken up, holds the claim on that
supervisor's own VM. There is at most one, and requests for the VM are held. -/
structure Edge.ParksOwn (edge : Edge) : Prop where
  delivered : ∀ (task : Nat) (watched : Watched), edge.watches[task]? = some watched →
    ∀ id ∈ watched.asked, edge.HoldsClaim id task
  one : ∀ (task : Nat) (watched : Watched), edge.watches[task]? = some watched →
    watched.asked.length ≤ 1
  held : ∀ (task : Nat) (watched : Watched), edge.watches[task]? = some watched →
    ∀ id ∈ watched.asked, ∀ host name info log,
      edge.agent.vms.toList.find? (fun item => item.2.route.any fun route => route.host == host) =
        some (name, .running info log task) →
      stepFor edge.isParking none edge.agent.vms host = .hold name .park

theorem Edge.Targets.parksOwn {edge : Edge} (h : edge.Targets) (hclaimed : edge.Claimed) :
    edge.ParksOwn := by
  have hdelivered (task : Nat) (watched : Watched) (hwatched : edge.watches[task]? = some watched)
      (id : Nat) (hid : id ∈ watched.asked) : edge.HoldsClaim id task := by
    obtain ⟨park, hpark, hsent⟩ := (hclaimed.asked hwatched).2 id hid
    have htraffic : task = park.traffic := h.target hpark (by rw [hsent]; rfl)
    exact ⟨park, hpark, Park.holds_of_pc hsent (by simp), htraffic.symm⟩
  refine ⟨hdelivered, ?_, ?_⟩
  · intro task watched hwatched
    have hsame : ∀ id ∈ watched.asked, ∀ other ∈ watched.asked, id = other := by
      intro id hid other hother
      obtain ⟨park, hpark, hholds, htraffic⟩ := hdelivered task watched hwatched id hid
      obtain ⟨park', hpark', hholds', htraffic'⟩ := hdelivered task watched hwatched other hother
      exact hclaimed.claims.one (b := ()) (c := ()) hpark hpark' ⟨hholds, htraffic⟩
        ⟨hholds', htraffic'⟩
    have hnodup := (hclaimed.asked hwatched).1
    match hasked : watched.asked with
    | [] => simp
    | [id] => simp
    | id :: other :: rest =>
      rw [hasked] at hnodup hsame
      have heq := hsame id mem_cons_self other (by simp)
      simp [heq] at hnodup
  · intro task watched hwatched id hid host name info log hfind
    obtain ⟨park, hpark, hholds, rfl⟩ := hdelivered task watched hwatched id hid
    simp only [stepFor, hfind, hclaimed.isParking hpark hholds, if_true]

/-- However an agent starts and its parks, starts, ends and requests are scheduled: if no
VM is handed to its supervisor while a park of its name has yet to look its VM up, then
every park that reaches a supervisor holds the claim of that supervisor's VM. -/
theorem parks_reach_claimed_vm (subnet : Subnet) (isRunning : Ipv4Addr → ProcessId → Bool)
    (now : Nat) (rows : Rows) (machines : Machines) {start : Agent} {edge : Edge}
    {schedule : List EdgeEvent}
    (hstart : Agent.empty.reconcile isRunning now rows.load = some start)
    (hrun : run (Edge.step subnet) (.new { start with machines }) schedule = some edge)
    (hlooked : Along (Edge.step subnet) (fun edge event => edge.handsOverLooked event = true)
      (.new { start with machines }) schedule) : edge.ParksOwn := by
  have hopen : Owned { start with machines } := .start hstart machines
  have hkeep {edge next : Edge} {event : EdgeEvent} (hok : edge.handsOverLooked event)
      (hinv : edge.Claimed ∧ edge.Targets) (hstep : edge.step subnet event = some next) :
      next.Claimed ∧ next.Targets := by
    have hmove := Edge.move_of_step hstep
    exact ⟨hinv.1.of_move hmove, hinv.2.of_move hinv.1 hmove hok⟩
  obtain ⟨hclaimed, htargets⟩ := run_preserves hkeep ⟨.new hopen, .new _⟩ hlooked hrun
  exact htargets.parksOwn hclaimed

/-- The VM whose park was claimed ends before the park's task runs, and the name is run
again. -/
def reusedName : List EdgeEvent :=
  [.runVm (.sample "web" (some ⟨"web.example", 80, none⟩)) "web-0.log",
    .begin 0, .finish 0 (.launched 5), .settle 0, .claimPark "web",
    .vmEnds 1, .close 1, .recordEnd 1 ⟨6, .exited⟩,
    .runVm (.sample "web" (some ⟨"web.example", 80, none⟩)) "web-1.log",
    .begin 2, .finish 2 (.launched 7), .settle 2,
    .beginPark 0, .lookUp 0, .send 0, .deliver 3]

/-- The new VM is parked under the old one's claim, and the edge goes on sending it
requests. -/
theorem park_reaches_another_vm :
    ∃ edge watched park, run (Edge.step .sample) (.new .empty) reusedName = some edge ∧
      edge.watches[3]? = some watched ∧ watched.pc = .parking 0 ∧
      edge.parks[0]? = some park ∧ park.traffic = 1 ∧
      stepFor edge.isParking none edge.agent.vms "web.example" =
        .answer (.upstream 0x0A4D0002#32 80) ∧ ¬ edge.ParksOwn := by
  obtain ⟨edge, hrun, watched, hwatched, hpc, park, hpark, htraffic, hstep⟩ : ∃ edge,
      run (Edge.step .sample) (.new .empty) reusedName = some edge ∧
      ∃ watched, edge.watches[3]? = some watched ∧ watched.pc = .parking 0 ∧
      ∃ park, edge.parks[0]? = some park ∧ park.traffic = 1 ∧
        stepFor edge.isParking none edge.agent.vms "web.example" =
          .answer (.upstream 0x0A4D0002#32 80) := by
    decide +kernel
  refine ⟨edge, watched, park, hrun, hwatched, hpc, hpark, htraffic, hstep, fun hown => ?_⟩
  obtain ⟨found, hfound, -, hother⟩ :=
    hown.delivered 3 watched hwatched 0 (by simp [Watched.asked, hpc])
  cases hpark.symm.trans hfound
  cases htraffic.symm.trans hother

/-- The park of the first VM has looked it up when the name's second VM is handed over, and
that VM is then parked too. -/
def lookedUpFirst : List EdgeEvent :=
  reusedName.take 5 ++ [.beginPark 0, .lookUp 0] ++ (reusedName.drop 5).take 7 ++
    [.send 0, .claimPark "web", .beginPark 1, .lookUp 1, .send 1, .deliver 3]

/-- The theorem applies: the second VM of a name is parked under its own claim. -/
theorem parksOwn_after_park :
    ∃ edge watched, run (Edge.step .sample) (.new .empty) lookedUpFirst = some edge ∧
      edge.watches[3]? = some watched ∧ watched.pc = .parking 1 ∧ edge.HoldsClaim 1 3 := by
  obtain ⟨edge, hrun, watched, hwatched, hpc⟩ : ∃ edge,
      run (Edge.step .sample) (.new .empty) lookedUpFirst = some edge ∧
      ∃ watched, edge.watches[3]? = some watched ∧ watched.pc = .parking 1 := by
    decide +kernel
  have hown := parks_reach_claimed_vm .sample (fun _ _ => false) 0 ∅ ∅ reconcile_nothing hrun
    (by decide +kernel)
  exact ⟨edge, watched, hrun, hwatched, hpc,
    hown.delivered 3 watched hwatched 1 (by simp [Watched.asked, hpc])⟩

end Cirrocumulus.Node
