/-
# One address's part in a step

The host objects of a VM are named by its address, and one name at a time holds an
address. So a run of the Node can be seen from one address as well: who works there, and
what that does to the objects there. Nothing else reaches them, but that a VMM may end by
itself, and that an agent that starts sweeps them while nobody holds the address.
-/

import Cirrocumulus.Node.Names

namespace Cirrocumulus.Node

/-- The same objects, though VMMs may have ended. -/
structure Objects.Rests (objects later : Objects) : Prop where
  procs : ∀ p ∈ later.procs, p ∈ objects.procs
  rest : later = { objects with procs := later.procs }

theorem Objects.Rests.refl (objects : Objects) : objects.Rests objects := ⟨fun _ h => h, rfl⟩

theorem Objects.rests_kill (objects : Objects) (process : Option ProcessId) :
    objects.Rests (objects.kill process) := by
  refine ⟨objects.procs_kill_subset process, ?_⟩
  cases process <;> rfl

/-- Who works at an address: a name, with where the Node stands with it. -/
abbrev Holder := Option (Str × Standing)

inductive System.Occupied (node : System) (a : Ipv4Addr) : Holder → Prop
  | nobody (hfree : ∀ name s, node.Stands name s → s.vmAddress ≠ some a) :
      System.Occupied node a none
  | somebody {name s} (hs : node.Stands name s) (ha : s.vmAddress = some a) :
      System.Occupied node a (some (name, s))

/-- The task has nothing left to do but to meet the table, which gives the address up. -/
def Standing.leaves : Standing → Bool
  | .launching _ _ .giveUp _ | .launching _ _ (.lose _) _ => true
  | .running _ _ _ (.record _) _ => true
  | _ => false

/-- What a step of the Node can be for one address. -/
inductive PlaceMove (node next : System) (a : Ipv4Addr) : NodeEvent → Holder → Holder → Prop
  | rests {event holder}
      (h : (node.host.objectsAt (hostId a)).Rests (next.host.objectsAt (hostId a))) :
      PlaceMove node next a event holder holder
  /-- An agent that starts sweeps what nobody holds. -/
  | swept {event up} (hup : node.up = some up) (hsweep : a ∈ up.boot.sweeping) (hobjects :
        next.host.objectsAt (hostId a) = (node.host.objectsAt (hostId a)).killAll ∨
        ∃ step, next.host.objectsAt (hostId a) = (node.host.objectsAt (hostId a)).undo step) :
      PlaceMove node next a event none none
  | begun {event task launch} (ha : launch.vmAddress = a)
      (hhost : next.host = node.host) (hready : node.Ready) :
      PlaceMove node next a event none
        (some (launch.name, .launching task launch .addNetns (.empty launch.vmAddress)))
  | adopted {event name task info log process} (hhost : next.host = node.host) :
      PlaceMove node next a event none
        (some (name, .running task info log .watch (.adopt a process)))
  | launchStep {task now outcome launch pc pc' vm vm'} (ha : launch.vmAddress = a)
      (hstep : launch.step node.host.nextProcess outcome now pc vm
        (node.host.view launch.name launch.vmAddress) =
          some (pc', vm', next.host.view launch.name launch.vmAddress)) :
      PlaceMove node next a (.launch task outcome now)
        (some (launch.name, .launching task launch pc vm))
        (some (launch.name, .launching task launch pc' vm'))
  | handedOver {event task task' startedAt launch vm} (hhost : next.host = node.host) :
      PlaceMove node next a event
        (some (launch.name, .launching task launch (.handOver startedAt) vm))
        (some (launch.name, .running task' (launch.info startedAt) launch.log .watch vm))
  | asked {task stop name info log pc pc' vm} (hhost : next.host = node.host)
      (htake : pc.take stop = some pc') :
      PlaceMove node next a (.stop task stop) (some (name, .running task info log pc vm))
        (some (name, .running task info log pc' vm))
  | superviseStep {task now outcome reason name info log pc pc' vm vm'} (ha : vm.vmAddress = a)
      (hstep : vm.supervise outcome reason pc (node.host.view name vm.vmAddress) =
        some (pc', vm', next.host.view name vm.vmAddress)) :
      PlaceMove node next a (.supervise task outcome reason now)
        (some (name, .running task info log pc vm)) (some (name, .running task info log pc' vm'))
  | released {event name s} (hleaves : s.leaves)
      (hobjects : next.host.objectsAt (hostId a) = node.host.objectsAt (hostId a)) :
      PlaceMove node next a event (some (name, s)) none
  | down {event holder} (hhost : next.host = node.host)
      (hdown : next.up = none) : PlaceMove node next a event holder none

variable {subnet : Subnet} {host : Host} {up : AgentProcess} {node next : System}
  {event : NodeEvent} {name : Str} {s s' : Standing} {a : Ipv4Addr} {task : Nat}

/-! ## Who works where -/

/-- Who works at an address holds it in the table. -/
theorem System.Reached.held (h : node.Reached subnet) (hs : node.Stands name s)
    (ha : s.vmAddress = some a) : ∃ (up : AgentProcess) (entry : Entry), node.up = some up ∧
      up.agent.vms[name]? = some entry ∧ entry.vmAddress = some a := by
  cases hs with
  | down hup => cases ha
  | up hup hs =>
    obtain ⟨entry, hentry, haddress⟩ := hs.held (h.sound.up hup) ha
    exact ⟨_, entry, hup, hentry, haddress⟩

theorem System.Reached.name_unique (h : node.Reached subnet) {other}
    (hs : node.Stands name s) (ha : s.vmAddress = some a) (hs' : node.Stands other s')
    (ha' : s'.vmAddress = some a) : name = other := by
  obtain ⟨up, entry, hup, hentry, hheld⟩ := h.held hs ha
  obtain ⟨up', entry', hup', hentry', hheld'⟩ := h.held hs' ha'
  cases hup.symm.trans hup'
  exact (h.sound.up hup).held.unique hentry hentry' hheld hheld'

theorem System.exists_occupied (node : System) (a : Ipv4Addr) :
    ∃ holder, node.Occupied a holder := by
  by_cases h : ∃ name s, node.Stands name s ∧ s.vmAddress = some a
  · obtain ⟨name, s, hs, ha⟩ := h
    exact ⟨_, .somebody hs ha⟩
  · exact ⟨none, .nobody fun name s hs ha => h ⟨name, s, hs, ha⟩⟩

/-- At most one name works at an address. -/
theorem System.Reached.occupied_eq (h : node.Reached subnet) (hs : node.Stands name s)
    (ha : s.vmAddress = some a) {holder}
    (ho : node.Occupied a holder) : holder = some (name, s) := by
  cases ho with
  | nobody hfree => exact absurd ha (hfree name s hs)
  | somebody hs' ha' =>
    cases h.name_unique hs ha hs' ha'
    rw [h.stands_unique hs hs']

/-- Nobody works at an address that no entry holds. -/
theorem System.Reached.nobody (h : node.Reached subnet) (hup : node.up = some up)
    (hfree : ∀ (name : Str) (entry : Entry), up.agent.vms[name]? = some entry →
      entry.vmAddress ≠ some a) : node.Occupied a none := by
  refine .nobody fun name s hs ha => ?_
  obtain ⟨up', entry, hup', hentry, hheld⟩ := h.held hs ha
  cases hup.symm.trans hup'
  exact hfree name entry hentry hheld

/-- Whoever holds an address of a sound Node holds a VM address. -/
theorem System.Reached.mem_vmAddresses (h : node.Reached subnet) (hs : node.Stands name s)
    (ha : s.vmAddress = some a) : a ∈ subnet.vmAddresses := by
  obtain ⟨up, entry, hup, hentry, hheld⟩ := h.held hs ha
  exact (h.sound.up hup).held.mem hentry hheld

/-! ## What reaches the objects -/

/-- What a step of the Node can do to the objects of an address. -/
inductive ObjectsMove (node next : System) (a : Ipv4Addr) : NodeEvent → Prop
  | rests {event : NodeEvent}
      (h : (node.host.objectsAt (hostId a)).Rests (next.host.objectsAt (hostId a))) :
      ObjectsMove node next a event
  | swept {event up after} (hup : node.up = some up) (hafter : next.up = some after)
      (hbefore : a ∈ up.boot.sweeping) (hsweep : a ∈ after.boot.sweeping) (hobjects :
        next.host.objectsAt (hostId a) = (node.host.objectsAt (hostId a)).killAll ∨
        ∃ step, next.host.objectsAt (hostId a) = (node.host.objectsAt (hostId a)).undo step) :
      ObjectsMove node next a event
  | launch {task now outcome launch pc pc' vm vm'} (ha : launch.vmAddress = a)
      (hs : node.Stands launch.name (.launching task launch pc vm))
      (hs' : next.Stands launch.name (.launching task launch pc' vm'))
      (hstep : launch.step node.host.nextProcess outcome now pc vm
        (node.host.view launch.name launch.vmAddress) =
          some (pc', vm', next.host.view launch.name launch.vmAddress)) :
      ObjectsMove node next a (.launch task outcome now)
  | supervise {task now outcome reason name info log pc pc' vm vm'} (ha : vm.vmAddress = a)
      (hs : node.Stands name (.running task info log pc vm))
      (hs' : next.Stands name (.running task info log pc' vm'))
      (hstep : vm.supervise outcome reason pc (node.host.view name vm.vmAddress) =
        some (pc', vm', next.host.view name vm.vmAddress)) :
      ObjectsMove node next a (.supervise task outcome reason now)

theorem ObjectsMove.of_objects (h : next.host.objects = node.host.objects) :
    ObjectsMove node next a event := by
  refine .rests ?_
  rw [Host.objectsAt, Host.objectsAt, h]
  exact .refl _

/-- A step that changes the objects of one VM address. -/
theorem ObjectsMove.of_change {b} (ha : a ∈ subnet.vmAddresses) (hb : b ∈ subnet.vmAddresses)
    (hother : ∀ id, id ≠ hostId b → next.host.objectsAt id = node.host.objectsAt id)
    (hself : a = b → ObjectsMove node next a event) : ObjectsMove node next a event := by
  by_cases heq : a = b
  · exact hself heq
  · refine .rests ?_
    rw [hother _ (subnet.names_ne ha hb heq).1]
    exact .refl _

theorem AgentProcess.BootMove.objectsMove {outcome now} (hset : up.Settled subnet)
    (ha : a ∈ subnet.vmAddresses) (hmove : up.BootMove subnet host outcome now next) :
    ObjectsMove ⟨host, some up⟩ next a (.bootStep outcome now) := by
  have hswept {vmAddress later after}
      (hmem : vmAddress ∈ up.boot.sweeping) (hafter : vmAddress ∈ after.boot.sweeping)
      (hlater : later = (host.objectsAt (hostId vmAddress)).killAll ∨
        ∃ step, later = (host.objectsAt (hostId vmAddress)).undo step) :
      ObjectsMove ⟨host, some up⟩
        ⟨if outcome = .ok then host.setObjects vmAddress later else host, some after⟩ a
        (.bootStep outcome now) := by
    by_cases hok : outcome = .ok
    · rw [if_pos hok]
      refine .of_change ha (hset.sweeping hmem).1 (fun id hne => ?_) ?_
      · simp only [Host.objectsAt, Host.setObjects, Lib.lookup_insert, if_neg hne]
      · rintro rfl
        refine .swept rfl rfl hmem hafter ?_
        simpa [Host.objectsAt, Host.setObjects] using hlater
    · rw [if_neg hok]
      exact .of_objects rfl
  cases hmove with
  | killAll hboot =>
    exact hswept (by rw [hboot]; exact List.mem_cons_self) List.mem_cons_self (.inl rfl)
  | @undo vmAddress step steps todo hboot =>
    exact hswept (by rw [hboot]; exact List.mem_cons_self) List.mem_cons_self (.inr ⟨step, rfl⟩)
  | _ => exact .of_objects rfl

theorem AgentProcess.objectsMove (h : up.Sound subnet host) (hset : up.Settled subnet)
    (ha : a ∈ subnet.vmAddresses) (hmove : up.Move subnet host event next) :
    ObjectsMove ⟨host, some up⟩ next a event := by
  cases hmove with
  | starts hmove => exact hmove.objectsMove hset ha
  | begins hfrom hmove =>
    cases hmove
    exact .of_objects rfl
  | removes hmove => cases hmove <;> exact .of_objects rfl
  | @launches task now outcome launch pc vm next hlaunch hpc hmove =>
    cases hmove with
    | @effect pc' vm' view' heffect =>
      refine .of_change ha (h.held.mem (h.owned.launch_entry hlaunch) rfl)
        (fun id hne => ?_) ?_
      · dsimp only
        rw [Host.objectsAt_put, if_neg hne]
      · rintro rfl
        have hpc' : (up.launching.insert task (pc', vm'))[task]? = some (pc', vm') := by simp
        refine .launch rfl (.up rfl (.launching hlaunch rfl hpc))
          (.up rfl (.launching hlaunch rfl hpc')) ?_
        dsimp only
        rw [Host.view_put_self]
        exact heffect
    | _ => exact .of_objects rfl
  | @supervises task now outcome reason name pc vm next hsup hpc hmove =>
    cases hmove with
    | record => exact .of_objects rfl
    | @effect pc' vm' view' heffect =>
      obtain ⟨info, log, hentry, hvm⟩ := h.superviseSound hsup hpc
      refine .of_change ha (h.held.mem hentry hvm.vmAddress) (fun id hne => ?_) ?_
      · dsimp only
        rw [Host.objectsAt_put, if_neg hne]
      · rintro rfl
        have hpc' : (up.supervising.insert task (pc', vm'))[task]? = some (pc', vm') := by simp
        refine .supervise rfl (.up rfl (.running hsup hentry hpc))
          (.up rfl (.running hsup hentry hpc')) ?_
        dsimp only
        rw [Host.view_put_self]
        exact heffect
  | opens | asked | removing | onMachines | sigterm | exits | crashes => exact .of_objects rfl

theorem System.Reached.objectsMove (h : node.Reached subnet) (ha : a ∈ subnet.vmAddresses)
    (hstep : node.step subnet event = some next) : ObjectsMove node next a event := by
  rcases System.step_eq_some hstep with ⟨vmAddress, process, -, rfl⟩ | ⟨-, -, rfl⟩ |
    ⟨up, hup, hmove⟩
  · refine .rests ?_
    simp only [Host.objectsAt, Host.setObjects, Lib.lookup_insert]
    split
    · rename_i heq
      rw [heq]
      exact (node.host.objectsAt (hostId vmAddress)).rests_kill (some process)
    · exact .refl _
  · exact .of_objects rfl
  · obtain ⟨host, found⟩ := node
    cases hup
    exact AgentProcess.objectsMove (h.sound.up rfl) (h.settled up rfl) ha hmove

/-! ## Moves of an address -/

/-- A launch was there before, or a request begins it. -/
theorem NameMove.launching {launch pc vm}
    (h : NameMove node next name event s s') (hs' : s' = .launching task launch pc vm) :
    s = .launching task launch pc vm ∨
      launch.From event ∧ pc = .addNetns ∧ vm = .empty launch.vmAddress ∨
      ∃ now outcome pc₀ vm₀, event = .launch task outcome now ∧
        s = .launching task launch pc₀ vm₀ ∧
        launch.step node.host.nextProcess outcome now pc₀ vm₀
          (node.host.view name launch.vmAddress) =
            some (pc, vm, next.host.view name launch.vmAddress) := by
  cases h with
  | untouched => exact .inl hs'
  | begun hname hhost hup hready hreserves hfrom =>
    cases hs'
    exact .inr (.inl ⟨hfrom, rfl, rfl⟩)
  | launchStep hname hstep =>
    cases hs'
    exact .inr (.inr ⟨_, _, _, _, rfl, rfl, hstep⟩)
  | gaveUp =>
    unfold Standing.history at hs'
    split at hs' <;> cases hs'
  | dropped hs =>
    rw [hs'] at hs
    rcases hs with hs | hs <;> cases hs
  | _ => cases hs'

theorem System.Reached.launch_of_step (h : node.Reached subnet) {after launch}
    (hstep : node.step subnet event = some next) (hafter : next.up = some after)
    (hlaunch : after.agent.launches[task]? = some launch) :
    (∃ up, node.up = some up ∧ up.agent.launches[task]? = some launch) ∨ launch.From event := by
  obtain ⟨pc, vm, hpc, -⟩ := ((h.step hstep).sound.up hafter).launching hlaunch
  obtain ⟨s, hs, hmove⟩ := h.nameMove hstep (.up hafter (.launching hlaunch rfl hpc))
  have hbefore {pc₀ vm₀} (hs₀ : s = .launching task launch pc₀ vm₀) :
      ∃ up, node.up = some up ∧ up.agent.launches[task]? = some launch := by
    subst hs₀
    obtain ⟨up, hup, hlaunch, -⟩ := hs.of_launching
    exact ⟨up, hup, hlaunch⟩
  rcases hmove.launching rfl with hs₀ | ⟨hfrom, -⟩ | ⟨_, _, _, _, -, hs₀, -⟩
  · exact .inl (hbefore hs₀)
  · exact .inr hfrom
  · exact .inl (hbefore hs₀)

theorem Standing.vmAddress_history (left : Option Replaced) :
    (Standing.history left).vmAddress = none := by
  cases left <;> rfl

/-- Every step of a Node is, for every VM address, one of its moves. -/
theorem System.Reached.placeMove (h : node.Reached subnet) (ha : a ∈ subnet.vmAddresses)
    (hstep : node.step subnet event = some next) {holder'} (ho : next.Occupied a holder') :
    ∃ holder, node.Occupied a holder ∧ PlaceMove node next a event holder holder' := by
  have hnext := h.step hstep
  cases h.objectsMove ha hstep with
  | swept hup hafter hbefore hsweep hobjects =>
    have hnobody := h.nobody hup ((h.settled _ hup).sweeping hbefore).2
    have hnone : holder' = none := by
      cases ho with
      | nobody => rfl
      | somebody hs hat =>
        cases hnext.nobody hafter ((hnext.settled _ hafter).sweeping hsweep).2 with
        | nobody hfree => exact absurd hat (hfree _ _ hs)
    subst hnone
    exact ⟨none, hnobody, .swept hup hbefore hobjects⟩
  | launch hat hs hs' heffect =>
    cases hnext.occupied_eq hs' (congrArg some hat) ho
    exact ⟨_, .somebody hs (congrArg some hat), .launchStep hat heffect⟩
  | supervise hat hs hs' heffect =>
    have hat' := (Vm.supervised heffect).vmAddress.trans hat
    cases hnext.occupied_eq hs' (congrArg some hat') ho
    exact ⟨_, .somebody hs (congrArg some hat), .superviseStep hat heffect⟩
  | rests hrests =>
    cases ho with
    | @somebody name s' hs' hat =>
      obtain ⟨s, hs, hmove⟩ := h.nameMove hstep hs'
      cases hmove with
      | untouched huntouched => exact ⟨_, .somebody hs hat, .rests hrests⟩
      | @adopted outcome now task row vmAddress process hhost hrow hended haddress hprocess
          halive =>
          cases hat
          refine ⟨none, ?_, .adopted hhost⟩
          cases hs with
          | up hup hs =>
            cases hs with
            | loading hrecord hname =>
              subst hname
              have hlive : node.host.LiveRow _ vmAddress process :=
                ⟨row, hrow, hended, haddress, hprocess, halive⟩
              exact h.nobody hup ((h.sound.up hup).todo.free hrecord hlive)
      | begun hname hhost hup hready hreserves =>
        subst hname
        cases hat
        exact ⟨none, h.nobody hup (freeVmAddress_eq_ok hreserves.free).2,
          .begun rfl hhost ⟨_, hup, hready⟩⟩
      | launchStep hname heffect =>
        subst hname
        cases hat
        exact ⟨_, .somebody hs rfl, .launchStep rfl heffect⟩
      | handedOver hname hhost =>
        subst hname
        refine ⟨_, .somebody hs ?_, .handedOver hhost⟩
        rw [← hat]
        exact congrArg some (h.launchSound hs).vmAddress.symm
      | asked hhost hready htake => exact ⟨_, .somebody hs hat, .asked hhost htake⟩
      | superviseStep heffect =>
        have hsame := (Vm.supervised heffect).vmAddress
        cases hat
        refine ⟨_, .somebody hs (congrArg some hsame.symm), .superviseStep hsame.symm heffect⟩
      | gaveUp hname hhost => cases (Standing.vmAddress_history _).symm.trans hat
      | dropped hs hunowned hhost => rcases hs with rfl | rfl <;> cases hat
      | _ => cases hat
    | nobody hfree =>
      obtain ⟨holder, hholder⟩ := node.exists_occupied a
      cases hholder with
      | nobody hbefore => exact ⟨none, .nobody hbefore, .rests hrests⟩
      | @somebody name s₀ hs₀ hat =>
        obtain ⟨s', hs'⟩ := hnext.exists_stands name
        obtain ⟨s, hs, hmove⟩ := h.nameMove hstep hs'
        cases h.stands_unique hs hs₀
        have hgone := hfree name s' hs'
        refine ⟨_, .somebody hs hat, ?_⟩
        cases hmove with
        | untouched | launchStep | asked => exact absurd hat hgone
        | down hhost hdown hcrash => exact .down hhost hdown
        | begun hname hhost =>
          cases (Standing.vmAddress_history _).symm.trans hat
        | handedOver hname hhost =>
          cases hat
          exact absurd (congrArg some (h.launchSound hs).vmAddress) hgone
        | gaveUp hname hhost | lost hname hhost => exact .released rfl (by rw [hhost])
        | superviseStep heffect =>
          cases hat
          exact absurd (congrArg some (Vm.supervised heffect).vmAddress) hgone
        | recorded hhost => exact .released rfl (by rw [hhost]; rfl)
        | dropped hs hunowned hhost => rcases hs with rfl | rfl <;> cases hat
        | _ => cases hat

end Cirrocumulus.Node
