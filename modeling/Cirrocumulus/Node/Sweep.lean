/-
# The sweep

An agent that starts looks for host objects under every name that an address of the
subnet gives, and removes those whose address no entry holds. What it finds is all there
is, and what happens meanwhile makes no more: only the VMs it took back are at work, each
at its own address, and one that ends tears its objects down before its entry gives the
address up.
-/

import Cirrocumulus.Node.Restart

namespace Cirrocumulus.Node

open Std (ExtTreeMap)
open Lib List

variable {a : Ipv4Addr} {pc : SupervisePc} {vm : Vm} {name : Str}

/-! ## What a teardown removes -/

/-- The object is there that an undo step removes. -/
def Objects.has (objects : Objects) : Undo → Bool
  | .netns => objects.netns
  | .link => objects.link
  | .jail => objects.jail.isSome
  | .cgroup => objects.cgroup

/-- The command of an undo step succeeds: the object is gone. -/
def Undo.succeeds (step : Undo) (objects : Objects) (outcome : Outcome) : Bool :=
  outcome == .ok && !(objects.undo step).has step

/-- Every object that is there is left to be removed. -/
def Covers (undo : List Undo) (objects : Objects) : Prop :=
  ∀ step, objects.has step = true → step ∈ undo

/-- The same names have the same kinds of objects, whatever runs or lies in them. -/
def SameObjects (host later : Host) : Prop :=
  ∀ id, (later.objectsAt id).has = (host.objectsAt id).has

section

variable {objects : Objects} {host : Host}

theorem Objects.present_eq_any (objects : Objects) :
    objects.present = undoSteps.any objects.has := by
  simp only [present, undoSteps, any_cons, any_nil, has, Bool.or_false]
  cases objects.netns <;> cases objects.link <;> cases objects.cgroup <;> simp

theorem covers_undoSteps (objects : Objects) : Covers undoSteps objects := by
  intro step _
  cases step <;> simp [undoSteps]

theorem Covers.not_present (h : Covers [] objects) : objects.present = false := by
  rw [Objects.present_eq_any, any_eq_false]
  intro step _ hhas
  cases h step hhas

/-- An undo step removes its own object alone. -/
theorem Objects.has_of_has_undo {step other} (h : (objects.undo step).has other) :
    objects.has other := by
  cases step <;> cases other <;> simp_all [undo, has]

theorem Covers.undo {step undo} (h : Covers (step :: undo) objects)
    (hgone : (objects.undo step).has step = false) : Covers undo (objects.undo step) := by
  intro other hother
  rcases mem_cons.mp (h other (Objects.has_of_has_undo hother)) with rfl | hmem
  · rw [hgone] at hother
    cases hother
  · exact hmem

theorem Objects.has_kill (objects : Objects) (process : Option ProcessId) :
    (objects.kill process).has = objects.has := by
  apply funext
  intro step
  cases process <;> cases step <;> rfl

theorem Objects.has_killAll (objects : Objects) : objects.killAll.has = objects.has := by
  apply funext
  intro step
  unfold killAll
  split <;> cases step <;> rfl

theorem Host.objectsAt_setObjects (host : Host) (vmAddress : Ipv4Addr) (objects : Objects)
    (id : Str) : (host.setObjects vmAddress objects).objectsAt id =
      if id = hostId vmAddress then objects else host.objectsAt id := by
  simp only [objectsAt, setObjects, lookup_insert]
  split <;> rfl

theorem SameObjects.refl (host : Host) : SameObjects host host := fun _ => rfl

theorem sameObjects_setObjects {vmAddress}
    (h : objects.has = (host.objectsAt (hostId vmAddress)).has) :
    SameObjects host (host.setObjects vmAddress objects) := by
  intro id
  rw [Host.objectsAt_setObjects]
  split
  · rename_i heq
    rw [heq, h]
  · rfl

end

/-! ## Where host objects are -/

/-- Host objects are named by VM addresses. -/
def Host.Named (subnet : Subnet) (host : Host) : Prop :=
  ∀ id, (host.objectsAt id).present = true → ∃ a ∈ subnet.vmAddresses, id = hostId a

section

variable {subnet : Subnet} {host later : Host} {up : AgentProcess} {node next : System}
  {event : NodeEvent}

theorem Host.present_iff : (host.objectsAt name).present ↔
    ∃ objects, (name, objects) ∈ host.objects.toList ∧ objects.present := by
  simp only [objectsAt, mem_items]
  cases host.objects[name]? <;> simp [Objects.present, Objects.none]

section

variable (h : host.Named subnet)
include h

theorem Host.Named.of_sameObjects (hsame : SameObjects host later) :
    later.Named subnet := by
  intro id hpresent
  rw [Objects.present_eq_any, hsame, ← Objects.present_eq_any] at hpresent
  exact h id hpresent

/-- The objects at one VM address change. -/
theorem Host.Named.of_change (ha : a ∈ subnet.vmAddresses)
    (hother : ∀ id, id ≠ hostId a → later.objectsAt id = host.objectsAt id) :
    later.Named subnet := by
  intro id hpresent
  by_cases heq : id = hostId a
  · exact ⟨a, ha, heq⟩
  · rw [hother id heq] at hpresent
    exact h id hpresent

theorem Host.Named.put (ha : a ∈ subnet.vmAddresses)
    (name : Str) (view : View) : (host.put name a view).Named subnet := by
  refine h.of_change ha fun id hne => ?_
  rw [objectsAt_put, if_neg hne]

theorem Host.Named.bootMove {outcome now} (hset : up.Settled subnet)
    (hmove : up.BootMove subnet host outcome now next) : next.host.Named subnet := by
  cases hmove with
  | killAll hboot =>
    dsimp only
    split
    · exact h.of_sameObjects (sameObjects_setObjects (Objects.has_killAll _))
    · exact h
  | @undo vmAddress step steps todo hboot =>
    have hmem : vmAddress ∈ up.boot.sweeping := by
      rw [hboot]
      exact mem_cons_self
    dsimp only
    split
    · refine h.of_change (hset.sweeping hmem).1 fun id hne => ?_
      rw [objectsAt_setObjects, if_neg hne]
    · exact h
  | _ => exact h

/-- Objects are made for VMs alone, at the addresses their entries hold. -/
theorem Host.Named.agentMove (hsound : up.Sound subnet host)
    (hset : up.Settled subnet) (hmove : up.Move subnet host event next) :
    next.host.Named subnet := by
  cases hmove with
  | starts hmove => exact h.bootMove hset hmove
  | begins hfrom hmove =>
    cases hmove
    exact h
  | removes hmove => cases hmove <;> exact h
  | launches hlaunch hpc hmove =>
    cases hmove with
    | effect heffect =>
      exact h.put (hsound.held.mem (hsound.owned.launch_entry hlaunch) rfl) _ _
    | _ => exact h
  | supervises hsup hpc hmove =>
    cases hmove with
    | record => exact h
    | effect heffect =>
      obtain ⟨info, log, hentry, hvm⟩ := hsound.superviseSound hsup hpc
      exact h.put (hsound.held.mem hentry hvm.vmAddress) _ _
  | opens | asked | removing | onMachines | sigterm | exits | crashes => exact h

end

theorem System.Reached.named_step (hnode : node.Reached subnet) (h : node.host.Named subnet)
    (hstep : node.step subnet event = some next) : next.host.Named subnet := by
  rcases step_eq_some hstep with ⟨vmAddress, process, -, rfl⟩ | ⟨-, -, rfl⟩ |
    ⟨up, hup, hmove⟩
  · exact h.of_sameObjects (sameObjects_setObjects (Objects.has_kill _ _))
  · exact h
  · exact h.agentMove (hnode.sound.up hup) (hnode.settled up hup) hmove

theorem System.named_of_run {schedule}
    (hrun : run (step subnet) .fresh schedule = some node) : node.host.Named subnet := by
  have hstart : fresh.Reached subnet ∧ fresh.host.Named subnet := by
    refine ⟨.fresh subnet, fun id hpresent => ?_⟩
    simp [fresh, Host.objectsAt, Host.empty, Objects.present, Objects.none] at hpresent
  have hkeep {node next : System} {event : NodeEvent}
      (h : node.Reached subnet ∧ node.host.Named subnet)
      (hstep : node.step subnet event = some next) :
      next.Reached subnet ∧ next.host.Named subnet :=
    ⟨h.1.step hstep, h.1.named_step h.2 hstep⟩
  have hend : node.Reached subnet ∧ node.host.Named subnet :=
    run_preserves_all (fun h hstep => hkeep h hstep) hstart hrun
  exact hend.2

end

/-! ## What is left to remove -/

/-- What a supervisor that nobody asked for anything has left to remove. -/
def LeftToRemove (objects : Objects) (vm : Vm) : SupervisePc → Prop
  | .watch | .kill _ => vm.undo = undoSteps
  | .unwind _ => Covers vm.undo objects
  | .record _ => objects.present = false
  | _ => False

/-- The records are loaded, and all taken back. -/
def Boot.loaded : Boot → Bool
  | .snapshots _ _ | .records _ => false
  | _ => true

namespace AgentProcess

/-- A Running entry holds the address. -/
def Runs (up : AgentProcess) (vmAddress : Ipv4Addr) : Prop :=
  ∃ (name : Str) (info : VmInfo) (log : Str) (task : Nat),
    up.agent.vms[name]? = some (.running info log task) ∧ info.vmAddress = some vmAddress

/-- What an agent that starts has left to remove: all that nobody holds, once it has taken
its records back. -/
structure Sweeps (subnet : Subnet) (host : Host) (up : AgentProcess) : Prop where
  supervising : ∀ {task : Nat} {name : Str} {pc} {vm},
    up.agent.supervisors[task]? = some name → up.supervising[task]? = some (pc, vm) →
      LeftToRemove (host.objectsAt (hostId vm.vmAddress)) vm pc
  found : up.boot.loaded → ∀ {a}, a ∈ subnet.vmAddresses →
    (host.objectsAt (hostId a)).present → a ∈ up.boot.sweeping ∨ up.Runs a
  cleaning : ∀ {a undo todo}, up.boot = .clean a undo todo → Covers undo (host.objectsAt (hostId a))

end AgentProcess

/-- A step of teardown succeeds, if the event is one. -/
def System.cleansUp (node : System) : NodeEvent → Bool
  | .bootStep outcome _ => node.up.all fun up =>
    match up.boot with
    | .clean vmAddress (step :: _) _ =>
      step.succeeds (node.host.objectsAt (hostId vmAddress)) outcome
    | _ => true
  | .supervise task outcome _ _ => node.up.all fun up =>
    match up.supervising[task]? with
    | some (.unwind _, vm) => vm.undo.head?.all fun step =>
      step.succeeds (node.host.objectsAt (hostId vm.vmAddress)) outcome
    | _ => true
  | _ => true

/-- Clean-up commands succeed. -/
def CleansUp (node : System) (event : NodeEvent) : Prop := node.cleansUp event = true

instance {node : System} {event : NodeEvent} : Decidable (CleansUp node event) :=
  inferInstanceAs (Decidable (_ = _))

variable {subnet : Subnet} {host later : Host} {up : AgentProcess} {node next : System}
  {event : NodeEvent} {outcome : Outcome} {now task : Nat} {reason : EndReason}

theorem LeftToRemove.of_has {objects objects'} (h : LeftToRemove objects vm pc)
    (hhas : objects'.has = objects.has) : LeftToRemove objects' vm pc := by
  cases pc with
  | watch => exact h
  | kill why => exact h
  | unwind why =>
    intro step hstep
    rw [hhas] at hstep
    exact h step hstep
  | record why =>
    change objects'.present = false
    rw [Objects.present_eq_any, hhas, ← Objects.present_eq_any]
    exact h
  | _ => exact h

theorem LeftToRemove.step {pc' vm' view view'} (h : LeftToRemove view.objects vm pc)
    (hclean : ∀ why step undo, pc = .unwind why → vm.undo = step :: undo →
      step.succeeds view.objects outcome)
    (hstep : vm.supervise outcome reason pc view = some (pc', vm', view')) :
    LeftToRemove view'.objects vm' pc' := by
  cases Vm.effect_of_supervise hstep with
  | ends => exact h
  | kill =>
    have hundo : vm.undo = undoSteps := h
    intro step _
    rw [hundo]
    cases step <;> simp [undoSteps]
  | @undo why step undo hundo =>
    have hdone := hclean why step undo rfl hundo
    simp only [Undo.succeeds, Bool.and_eq_true, beq_iff_eq, Bool.not_eq_true'] at hdone
    rw [if_pos hdone.1]
    have hcovers : Covers vm.undo view.objects := h
    rw [hundo] at hcovers
    exact hcovers.undo hdone.2
  | undone hundo =>
    have hcovers : Covers vm.undo view.objects := h
    rw [hundo] at hcovers
    exact hcovers.not_present
  | _ => exact h.elim

namespace AgentProcess

/-- The same agent, on a host with the same objects. -/
theorem Sweeps.of_sameObjects (h : up.Sweeps subnet host) (hsame : SameObjects host later) :
    up.Sweeps subnet later where
  supervising := fun hsup hpc => (h.supervising hsup hpc).of_has (hsame _)
  found := by
    intro hloaded a ha hpresent
    rw [Objects.present_eq_any, hsame, ← Objects.present_eq_any] at hpresent
    exact h.found hloaded ha hpresent
  cleaning := by
    intro a undo todo hboot step hstep
    rw [hsame] at hstep
    exact h.cleaning hboot step hstep

/-- Nothing is looked for before all records are taken back. -/
theorem Sweeps.of_not_loaded (hboot : up.boot.loaded = false)
    (hsup : ∀ {task : Nat} {name : Str} {pc} {vm},
      up.agent.supervisors[task]? = some name → up.supervising[task]? = some (pc, vm) →
        LeftToRemove (host.objectsAt (hostId vm.vmAddress)) vm pc) : up.Sweeps subnet host where
  supervising := hsup
  found := by simp [hboot]
  cleaning := by
    intro a undo todo hclean
    rw [hclean] at hboot
    cases hboot

/-- The host objects of an address of the subnet are found by their name. -/
theorem mem_stateOwners (ha : a ∈ subnet.vmAddresses)
    (hpresent : (host.objectsAt (hostId a)).present) :
    a ∈ host.stateOwners.filterMap subnet.vmAddressWithLow16 := by
  rw [mem_filterMap]
  refine ⟨low16 a, ?_, subnet.vmAddressWithLow16_low16 ha⟩
  obtain ⟨objects, hitem, hpresent⟩ := Host.present_iff.mp hpresent
  rw [Host.stateOwners, mem_filterMap]
  exact ⟨_, mem_filter.mpr ⟨hitem, hpresent⟩, parseHostId_hostId a⟩

/-- While an agent starts, whatever holds an address runs. -/
theorem Sound.runs_of_held (h : up.Sound subnet host) (hboot : up.boot ≠ .ready) {entry}
    (hentry : up.agent.vms[name]? = some entry) (ha : entry.vmAddress = some a) : up.Runs a := by
  cases entry with
  | starting vmAddress log route =>
    obtain ⟨task, launch, hlaunch, -⟩ := h.owned.starting_launch hentry
    rw [(h.booting hboot).1] at hlaunch
    cases hlaunch
  | running info log task => exact ⟨name, info, log, task, hentry, ha⟩
  | ended info log => cases ha

/-- What is swept is away from every VM that runs. -/
theorem Sound.hostId_ne (h : up.Sound subnet host) (hset : up.Settled subnet)
    (ha : a ∈ up.boot.sweeping) (hsup : up.agent.supervisors[task]? = some name)
    (hpc : up.supervising[task]? = some (pc, vm)) : hostId vm.vmAddress ≠ hostId a := by
  obtain ⟨info, log, hentry, hsound⟩ := h.superviseSound hsup hpc
  obtain ⟨hmem, hfree⟩ := hset.sweeping ha
  have hne : vm.vmAddress ≠ a := by
    rintro rfl
    exact hfree name _ hentry hsound.vmAddress
  exact (subnet.names_ne (h.held.mem hentry hsound.vmAddress) hmem hne).1

theorem Sweeps.bootMove (h : up.Sweeps subnet host) (hsound : up.Sound subnet host)
    (hset : up.Settled subnet) (hclean : CleansUp ⟨host, some up⟩ (.bootStep outcome now))
    (hmove : up.BootMove subnet host outcome now next) :
    ∀ after, next.up = some after → after.Sweeps subnet next.host := by
  intro after hafter
  cases hmove with
  | keepSnapshot | dropSnapshot | snapshotsDone | ended | gone =>
    cases hafter
    exact .of_not_loaded rfl h.supervising
  | @alive record todo vmAddress process hboot hended haddress hprocess halive =>
    cases hafter
    refine .of_not_loaded rfl fun {task name pc vm} hsup hpc => ?_
    simp only [Agent.adopt, lookup_insert] at hsup hpc
    split at hsup
    · rename_i heq
      rw [if_pos heq] at hpc
      cases hpc
      rfl
    · rename_i hne
      rw [if_neg hne] at hpc
      exact h.supervising hsup hpc
  | unmarked | refused => cases hafter
  | recordsDone hboot =>
    cases hafter
    refine ⟨h.supervising, fun _ {a} ha hpresent => ?_, fun hboot => by cases hboot⟩
    by_cases hheld : ∃ (name : Str) (entry : Entry), up.agent.vms[name]? = some entry ∧
        entry.vmAddress = some a
    · obtain ⟨name, entry, hentry, haddress⟩ := hheld
      exact .inr (hsound.runs_of_held (by simp [hboot]) hentry haddress)
    · refine .inl (Host.mem_unheld.mpr ⟨mem_stateOwners ha hpresent, ?_⟩)
      intro name entry hentry haddress
      exact hheld ⟨name, entry, hentry, haddress⟩
  | @killAll vmAddress todo hboot =>
    cases hafter
    have hsame : SameObjects host (if outcome = .ok then
        host.setObjects vmAddress (host.objectsAt (hostId vmAddress)).killAll else host) := by
      split
      · exact sameObjects_setObjects (Objects.has_killAll _)
      · exact .refl host
    have hlater := h.of_sameObjects hsame
    refine ⟨hlater.supervising, fun _ {a} ha hpresent => ?_, fun {a undo rest} hclean => ?_⟩
    · have hfound := hlater.found (by rw [hboot]; rfl) ha hpresent
      rw [hboot] at hfound
      exact hfound
    · cases hclean
      exact covers_undoSteps _
  | @undo vmAddress step steps todo hboot =>
    cases hafter
    simp only [CleansUp, System.cleansUp, Option.all_some, hboot, Undo.succeeds,
      Bool.and_eq_true, beq_iff_eq, Bool.not_eq_true'] at hclean
    dsimp only
    rw [if_pos hclean.1]
    have hmem : vmAddress ∈ up.boot.sweeping := by
      rw [hboot]
      exact mem_cons_self
    refine ⟨fun hsup hpc => ?_, fun _ {a} ha hpresent => ?_, fun {a undo rest} heq => ?_⟩
    · rw [Host.objectsAt_setObjects, if_neg (hsound.hostId_ne hset hmem hsup hpc)]
      exact h.supervising hsup hpc
    · by_cases heq : a = vmAddress
      · exact .inl (heq ▸ mem_cons_self)
      · have hid := (subnet.names_ne ha (hset.sweeping hmem).1 heq).1
        rw [Host.objectsAt_setObjects, if_neg hid] at hpresent
        have hfound := h.found (by rw [hboot]; rfl) ha hpresent
        rw [hboot] at hfound
        exact hfound
    · cases heq
      rw [Host.objectsAt_setObjects, if_pos rfl]
      exact (h.cleaning hboot).undo hclean.2
  | @cleaned vmAddress todo hboot =>
    cases hafter
    refine ⟨h.supervising, fun _ {a} ha hpresent => ?_, fun hboot => by cases hboot⟩
    rcases h.found (by rw [hboot]; rfl) ha hpresent with hmem | hruns
    · rw [hboot] at hmem
      rcases mem_cons.mp hmem with rfl | hmem
      · rw [(h.cleaning hboot).not_present] at hpresent
        cases hpresent
      · exact .inl hmem
    · exact .inr hruns

theorem Sweeps.superviseMove (h : up.Sweeps subnet host) (hsound : up.Sound subnet host)
    (hset : up.Settled subnet) (hsup : up.agent.supervisors[task]? = some name)
    (hpc : up.supervising[task]? = some (pc, vm))
    (hclean : CleansUp ⟨host, some up⟩ (.supervise task outcome reason now))
    (hmove : up.SuperviseMove host task outcome reason now name pc vm next) :
    ∀ after, next.up = some after → after.Sweeps subnet next.host := by
  intro after hafter
  obtain ⟨info, log, hentry, hvm⟩ := hsound.superviseSound hsup hpc
  cases hmove with
  | @record why agent hrecord hunlocked hagent =>
    cases hafter
    subst hrecord
    have hgone : (host.objectsAt (hostId vm.vmAddress)).present = false := h.supervising hsup hpc
    obtain ⟨found, hfound, rfl⟩ := vmEnded_eq_some hagent
    cases hsup.symm.trans hfound
    refine ⟨fun {other name' pc₁ vm₁} hsup₁ hpc₁ => ?_, fun hloaded {a} ha hpresent => ?_,
      fun hboot => h.cleaning hboot⟩
    · simp only [lookup_erase] at hsup₁ hpc₁
      split at hsup₁
      · cases hsup₁
      · rename_i hne
        rw [if_neg hne] at hpc₁
        exact h.supervising hsup₁ hpc₁
    · rcases h.found hloaded ha hpresent with hmem | ⟨name₁, info₁, log₁, task₁, hrunning, hat⟩
      · exact .inl hmem
      · refine .inr ⟨name₁, info₁, log₁, task₁, ?_, hat⟩
        dsimp only
        rw [lookup_recordEnd hentry, if_neg]
        · exact hrunning
        · rintro rfl
          cases hentry.symm.trans hrunning
          cases hvm.vmAddress.symm.trans hat
          exact Bool.false_ne_true (hgone.symm.trans hpresent)
  | @effect pc₁ vm₁ view₁ hstep =>
    cases hafter
    have hat := hsound.held.mem hentry hvm.vmAddress
    have hdone := Vm.supervised hstep
    refine ⟨fun {other name' pc₂ vm₂} hsup₂ hpc₂ => ?_, fun hloaded {a} ha hpresent => ?_,
      fun {a undo todo} hboot => ?_⟩
    · by_cases heq : other = task
      · subst heq
        simp only [lookup_insert, if_true, Option.some.injEq, Prod.mk.injEq] at hpc₂
        obtain ⟨rfl, rfl⟩ := hpc₂
        rw [hdone.vmAddress, Host.objectsAt_put, if_pos rfl]
        have hleft : LeftToRemove (host.view name vm.vmAddress).objects vm pc :=
          h.supervising hsup hpc
        refine hleft.step ?_ hstep
        rintro why step undo rfl hundo
        rw [Host.view]
        simpa [CleansUp, System.cleansUp, hpc, hundo] using hclean
      · simp only [lookup_insert, if_neg heq] at hpc₂
        obtain ⟨info₃, log₃, hentry₃, hvm₃⟩ := hsound.superviseSound hsup₂ hpc₂
        have hname : name' ≠ name := by
          rintro rfl
          exact heq (hsound.owned.supervisor_unique hsup₂ hsup)
        have hne : vm₂.vmAddress ≠ vm.vmAddress := fun hsame =>
          hname (hsound.held.unique hentry₃ hentry hvm₃.vmAddress (hsame ▸ hvm.vmAddress))
        have hid := (subnet.names_ne (hsound.held.mem hentry₃ hvm₃.vmAddress) hat hne).1
        rw [Host.objectsAt_put, if_neg hid]
        exact h.supervising hsup₂ hpc₂
    · by_cases heq : a = vm.vmAddress
      · subst heq
        exact .inr ⟨name, info, log, task, hentry, hvm.vmAddress⟩
      · rw [Host.objectsAt_put, if_neg (subnet.names_ne ha hat heq).1] at hpresent
        exact h.found hloaded ha hpresent
    · have hmem : a ∈ up.boot.sweeping := by
        rw [show up.boot = .clean a undo todo from hboot]
        exact mem_cons_self
      rw [Host.objectsAt_put, if_neg (hsound.hostId_ne hset hmem hsup hpc).symm]
      exact h.cleaning hboot

end AgentProcess

/-- A Node with no agent, or one that starts. -/
structure System.Sweeping (subnet : Subnet) (node : System) : Prop where
  reached : node.Reached subnet
  not_ready : ¬ node.Ready
  sweeps : ∀ up, node.up = some up → up.Sweeps subnet node.host

theorem System.Sweeping.step (h : node.Sweeping subnet)
    (hopen : ∀ machines, event ≠ .openSocket machines) (hclean : CleansUp node event)
    (hstep : node.step subnet event = some next) : next.Sweeping subnet := by
  refine ⟨h.reached.step hstep, h.reached.sound.not_ready h.not_ready hopen hstep, ?_⟩
  rcases step_eq_some hstep with ⟨vmAddress, process, -, rfl⟩ | ⟨-, -, rfl⟩ |
    ⟨up, hup, hstep⟩
  · intro up hup
    exact (h.sweeps up hup).of_sameObjects (sameObjects_setObjects (Objects.has_kill _ _))
  · intro up hup
    cases hup
    refine .of_not_loaded rfl fun hsup => ?_
    simp [AgentProcess.start, Agent.empty] at hsup
  · obtain ⟨host, found⟩ := node
    cases hup
    have hsound := h.reached.sound.up rfl
    have hset := h.reached.settled up rfl
    have hsweeps := h.sweeps up rfl
    have hboot : up.boot ≠ .ready := fun hboot => h.not_ready ⟨up, rfl, hboot⟩
    cases hsound.startMove hboot hopen hstep with
    | bootStep hmove => exact hsweeps.bootMove hsound hset hclean hmove
    | supervise hsup hpc hmove => exact hsweeps.superviseMove hsound hset hsup hpc hclean hmove
    | gone hevent hnext =>
      intro after hafter
      rw [hnext] at hafter
      cases hafter

/-- However often an agent starts and is gone again: what it has left to remove when it
has taken its records back is all that no Running entry holds. -/
theorem System.sweeping_of_run {down schedule} (hdown : down.Reached subnet)
    (hnone : down.up = none) (hopen : ∀ event ∈ schedule, ∀ machines, event ≠ .openSocket machines)
    (hclean : Along (step subnet) CleansUp down schedule)
    (hrun : run (step subnet) down schedule = some node) : node.Sweeping subnet := by
  have hquiet : Along (step subnet)
      (fun _ event => ∀ machines, event ≠ .openSocket machines) down schedule :=
    .of_forall fun event hevent _ => hopen event hevent
  have hstart : down.Sweeping subnet := by
    refine ⟨hdown, not_ready_of_none hnone, fun up hup => ?_⟩
    rw [hnone] at hup
    cases hup
  exact run_preserves (fun hok hnode hstep => System.Sweeping.step hnode hok.2 hok.1 hstep)
    hstart (hclean.and hquiet) hrun

end Cirrocumulus.Node
