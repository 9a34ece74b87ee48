/-
# What a VM leaves at its address

A VM's address is free again once its entry is gone, and the entry goes once the teardown
is through, whether or not each step of it succeeded. So the objects of an address that
nobody holds are gone just if every step that should have removed them did so, and if no
start left an object that it did not know of.
-/

import Cirrocumulus.Node.Places
import Cirrocumulus.Node.Sweep

namespace Cirrocumulus.Node

open Lib Option

variable {undo : List Undo} {pc : SupervisePc}

/-- The launch has undone all it did. -/
def LaunchPc.cleared : LaunchPc → Bool
  | .giveUp | .markLost | .lose _ => true
  | _ => false

/-- The supervisor has undone all that its VM's launch did. -/
def SupervisePc.cleared : SupervisePc → Bool
  | .record _ => true
  | _ => false

/-- Whatever is there, `undo` removes; once all is undone, nothing is there. -/
def Clears (cleared : Bool) (undo : List Undo) (objects : Objects) : Prop :=
  if cleared then objects.present = false else Covers undo objects

/-- What a name's task has left to remove at its address. -/
def Standing.Clears (objects : Objects) : Standing → Prop
  | .launching _ _ pc vm => Node.Clears pc.cleared vm.undo objects
  | .running _ _ _ pc vm => Node.Clears pc.cleared vm.undo objects
  | _ => True

/-- At an address at which nobody works, nothing is there. -/
def Holder.Clears (objects : Objects) : Holder → Prop
  | some (_, s) => s.Clears objects
  | none => objects.present = false

/-- A step of teardown succeeds, if the event is one, and `ip netns add` makes no namespace
when it fails. -/
def System.clearsUp (node : System) : NodeEvent → Bool
  | .launch task outcome _ => node.up.all fun up =>
    match up.launching[task]? with
    | some (.addNetns, _) => outcome != .partly
    | some (.unwind _, vm) => vm.undo.head?.all fun step =>
      step.succeeds (node.host.objectsAt (hostId vm.vmAddress)) outcome
    | _ => true
  | event => node.cleansUp event

/-- Each teardown removes what was made. -/
def ClearsUp (node : System) (event : NodeEvent) : Prop := node.clearsUp event = true

instance {node : System} {event : NodeEvent} : Decidable (ClearsUp node event) :=
  inferInstanceAs (Decidable (_ = _))

variable {subnet : Subnet} {node next : System} {event : NodeEvent} {name : Str}
  {s s' : Standing} {a : Ipv4Addr} {task now : Nat} {outcome : Outcome} {objects later : Objects}
  {vm vm' : Vm} {view view' : View}

/-! ## What a task has left to remove -/

theorem Objects.Rests.has (h : objects.Rests later) : later.has = objects.has := by
  rw [h.rest]
  apply funext
  intro step
  cases step <;> rfl

theorem Objects.present_of_has (h : later.has = objects.has) : later.present = objects.present := by
  rw [present_eq_any, h, ← present_eq_any]

theorem covers_nil (h : objects.present = false) : Covers [] objects := by
  intro step hstep
  rw [Objects.present_eq_any, List.any_eq_false] at h
  exact absurd hstep (h step (covers_undoSteps objects step hstep))

theorem Covers.of_has (h : Covers undo objects)
    (hhas : ∀ step, later.has step → objects.has step) : Covers undo later :=
  fun step hstep => h step (hhas step hstep)

theorem Standing.Clears.of_has (h : s.Clears objects) (hhas : later.has = objects.has) :
    s.Clears later := by
  have hclears {cleared undo} (h : Node.Clears cleared undo objects) :
      Node.Clears cleared undo later := by
    cases cleared with
    | true => exact (Objects.present_of_has hhas).trans h
    | false => exact Covers.of_has h fun step hstep => hhas ▸ hstep
  cases s with
  | launching | running => exact hclears h
  | _ => trivial

/-- A task that leaves has left nothing. -/
theorem Standing.Clears.not_present (h : s.Clears objects) (hleaves : s.leaves) :
    objects.present = false := by
  unfold leaves at hleaves
  split at hleaves
  · exact h
  · exact h
  · exact h
  · cases hleaves

theorem Objects.has_withFile (objects : Objects) (file : JailFile) :
    (objects.withFile file).has = objects.has := by
  apply funext
  intro step
  cases step <;> simp [withFile, has]

theorem Objects.has_withoutFile (objects : Objects) (file : JailFile) :
    (objects.withoutFile file).has = objects.has := by
  apply funext
  intro step
  cases step <;> simp [withoutFile, has]

theorem View.has_moveIn {jailFile file}
    (h : view.moveIn jailFile file = some view') : view'.objects.has = view.objects.has := by
  obtain ⟨files, inJail, -, hjail, rfl⟩ := moveIn_eq_some h
  apply funext
  intro step
  cases step <;> simp [Objects.has, hjail]

theorem View.has_moveOut {jailFile file}
    (h : view.moveOut jailFile file = some view') : view'.objects.has = view.objects.has := by
  obtain ⟨files, inJail, -, hjail, rfl⟩ := moveOut_eq_some h
  apply funext
  intro step
  cases step <;> simp [Objects.has, hjail]

theorem Covers.same (h : Covers undo objects)
    (hhas : later.has = objects.has) : Covers undo later :=
  h.of_has fun _ hstep => hhas ▸ hstep

/-- An object is made, and the step that removes it is noted. -/
theorem Covers.made {step} (h : Covers undo objects)
    (hhas : ∀ other, other ≠ step → later.has other = objects.has other) :
    Covers (step :: undo) later := by
  intro other hother
  by_cases heq : other = step
  · rw [heq]
    exact List.mem_cons_self
  · rw [hhas other heq] at hother
    exact List.mem_cons_of_mem _ (h other hother)

/-- One step of teardown, for a launch or a supervisor. -/
theorem Covers.unwind {step} (h : Covers (step :: undo) objects)
    (hclean : step.succeeds objects outcome) :
    Covers undo (if outcome = .ok then objects.undo step else objects) := by
  simp only [Undo.succeeds, Bool.and_eq_true, beq_iff_eq, Bool.not_eq_true'] at hclean
  rw [if_pos hclean.1]
  exact h.undo hclean.2

/-- Jailer makes a jail and a cgroup. -/
theorem Covers.spawned (h : Covers undo objects)
    (processes : List ProcessId) : Covers (.cgroup :: .jail :: undo) (objects.spawn processes) := by
  have hmade : Covers (.jail :: undo) { objects with jail := some [] } :=
    h.made fun other hne => by cases other <;> first | rfl | exact absurd rfl hne
  exact hmade.made fun other hne => by cases other <;> first | rfl | exact absurd rfl hne

/-- A failing step has noted what it may have made, but for a namespace it half made. -/
theorem Launch.Failure.covers {pc} (h : Launch.Failure outcome vm view pc vm' view')
    (hnetns : pc = .addNetns → outcome ≠ .partly)
    (hclears : Clears pc.cleared vm.undo view.objects) : Covers vm'.undo view'.objects := by
  have hall : Covers vm.undo view.objects := by cases h <;> exact hclears
  cases h with
  | addNetns hfailed =>
    cases outcome with
    | ok => exact absurd rfl hfailed
    | partly => exact absurd rfl (hnetns rfl)
    | failed => exact hall
  | spawnJailer hfailed =>
    rcases hfailed with ⟨-, rfl⟩ | ⟨-, rfl⟩
    · exact hall.spawned []
    · intro step hhas
      exact List.mem_cons_of_mem _ (List.mem_cons_of_mem _ (hall step hhas))
  | addLinks hfailed =>
    refine hall.made fun other hne => ?_
    cases outcome <;> cases other <;> first | rfl | exact absurd rfl hne
  | copyRootfs hfailed =>
    cases outcome with
    | ok => exact absurd rfl hfailed
    | partly => exact hall.same (Objects.has_withFile _ _)
    | failed => exact hall
  | awaitSocket | boot | moveIn | loadSnapshot => exact hall

/-- A launch's steps keep what it has left to remove. -/
theorem Launch.clears_step {launch : Launch} {fresh pc pc'}
    (hstep : launch.step fresh outcome now pc vm view = some (pc', vm', view'))
    (h : Clears pc.cleared vm.undo view.objects) (hnetns : pc = .addNetns → outcome ≠ .partly)
    (hclean : ∀ lost step undo, pc = .unwind lost → vm.undo = step :: undo →
      step.succeeds view.objects outcome) :
    Clears pc'.cleared vm'.undo view'.objects := by
  cases effect_of_step hstep with
  | addNetns | addLinks =>
    exact Covers.made h fun other hne => by cases other <;> first | rfl | exact absurd rfl hne
  | spawnJailer => exact Covers.spawned h _
  | copyRootfs => exact Covers.same h (Objects.has_withFile _ _)
  | moveIn hok hmoved => exact Covers.same h (View.has_moveIn hmoved)
  | moveBack hok hroot hmoved => exact Covers.same h (View.has_moveOut hmoved)
  | kill => exact Covers.same h (Objects.has_kill _ _)
  | @undo lost step undo hundo =>
    have hall : Covers (step :: undo) view.objects := hundo ▸ h
    exact hall.unwind (hclean lost step undo rfl hundo)
  | givesUp hundo | loses hundo =>
    have hall : Covers [] view.objects := hundo ▸ h
    exact hall.not_present
  | fails hkind hfailure | failsToWake hkind hfailure => exact hfailure.covers hnetns h
  | _ => exact h

/-- So do a supervisor's. -/
theorem Vm.clears_step {reason pc'}
    (hstep : vm.supervise outcome reason pc view = some (pc', vm', view'))
    (h : Clears pc.cleared vm.undo view.objects)
    (hclean : ∀ why step undo, pc = .unwind why → vm.undo = step :: undo →
      step.succeeds view.objects outcome) :
    Clears pc'.cleared vm'.undo view'.objects := by
  cases effect_of_supervise hstep with
  | snapshot =>
    have hall : Covers vm.undo view.objects := h
    exact (hall.same (Objects.has_withFile _ _)).same (Objects.has_withFile _ _)
  | noSnapshot =>
    have hall : Covers vm.undo view.objects := h
    exact (hall.same (Objects.has_withoutFile _ _)).same (Objects.has_withoutFile _ _)
  | parkKill | kill => exact Covers.same h (Objects.has_kill _ _)
  | moveOut hok hmoved => exact Covers.same h (View.has_moveOut hmoved)
  | @dropDir lost => cases lost <;> exact h
  | @undo why step undo hundo =>
    have hall : Covers (step :: undo) view.objects := hundo ▸ h
    exact hall.unwind (hclean why step undo rfl hundo)
  | undone hundo =>
    have hall : Covers [] view.objects := hundo ▸ h
    exact hall.not_present
  | _ => exact h

theorem SupervisePc.not_cleared_of_take {pc' stop}
    (h : pc.take stop = some pc') : pc.cleared = false ∧ pc'.cleared = false := by
  unfold take at h
  split at h <;> cases h <;> exact ⟨rfl, rfl⟩

/-! ## Steps that clear up -/

theorem ClearsUp.launch (h : ClearsUp node (.launch task outcome now)) {launch pc}
    (hnode : node.Reached subnet) (hs : node.Stands name (.launching task launch pc vm)) :
    (pc = .addNetns → outcome ≠ .partly) ∧
    ∀ lost step undo, pc = .unwind lost → vm.undo = step :: undo →
      step.succeeds (node.host.objectsAt (hostId launch.vmAddress)) outcome := by
  obtain ⟨up, hup, hlaunch, hname, hpc⟩ := hs.of_launching
  simp only [ClearsUp, System.clearsUp, hup, all_some, hpc] at h
  refine ⟨?_, ?_⟩
  · rintro rfl
    simpa using h
  · rintro lost step undo rfl hundo
    rw [← (hnode.launchSound hs).vmAddress]
    simpa [hundo] using h

theorem ClearsUp.supervise {reason}
    (h : ClearsUp node (.supervise task outcome reason now)) {info log}
    (hs : node.Stands name (.running task info log pc vm)) :
    ∀ why step undo, pc = .unwind why → vm.undo = step :: undo →
      step.succeeds (node.host.objectsAt (hostId vm.vmAddress)) outcome := by
  rintro why step undo rfl hundo
  obtain ⟨up, hup, hsup, hentry, hpc⟩ := hs.of_running
  simpa [ClearsUp, System.clearsUp, System.cleansUp, hup, hpc, hundo] using h

theorem ClearsUp.cleansUp (h : ClearsUp node event) : CleansUp node event := by
  cases event with
  | launch task outcome now => rfl
  | _ => exact h

/-- An agent whose socket is open keeps it open as long as it is there. -/
theorem System.Ready.step (h : node.Ready) (hstep : node.step subnet event = some next) :
    next.Ready ∨ next.up = none := by
  obtain ⟨up, hup, hready⟩ := h
  rcases step_eq_some hstep with ⟨vmAddress, process, -, rfl⟩ | ⟨-, hnone, rfl⟩ |
    ⟨found, hfound, hmove⟩
  · exact .inl ⟨up, hup, hready⟩
  · cases hup.symm.trans hnone
  · cases hup.symm.trans hfound
    cases hmove with
    | starts hmove => cases hmove <;> cases hready.symm.trans ‹_›
    | opens hboot => cases hready.symm.trans hboot
    | begins hfrom hmove =>
      cases hmove
      exact .inl ⟨_, rfl, hready⟩
    | removes hmove | launches hlaunch hpc hmove | supervises hsup hpc hmove =>
      cases hmove <;> exact .inl ⟨_, rfl, hready⟩
    | asked | removing | onMachines | sigterm => exact .inl ⟨_, rfl, hready⟩
    | exits | crashes => exact .inr rfl

/-! ## Runs that clear up -/

/-- A Node on which nothing is left that nobody would remove. -/
structure System.Cleared (subnet : Subnet) (node : System) : Prop where
  reached : node.Reached subnet
  starting : ¬ node.Ready → node.Sweeping subnet
  places : node.Ready → ∀ {a holder}, a ∈ subnet.vmAddresses → node.Occupied a holder →
    Holder.Clears (node.host.objectsAt (hostId a)) holder

theorem LeftToRemove.clears (h : LeftToRemove objects vm pc) :
    Clears pc.cleared vm.undo objects := by
  cases pc with
  | watch | kill =>
    rw [show vm.undo = undoSteps from h]
    exact covers_undoSteps objects
  | unwind why => exact h
  | record why => exact h
  | _ => exact h.elim

/-- When its socket opens, an agent has swept all that nobody holds. -/
theorem System.Sweeping.opened (h : node.Sweeping subnet) {machines}
    (hstep : node.step subnet (.openSocket machines) = some next) : next.Cleared subnet := by
  have hnext := h.reached.step hstep
  obtain ⟨up, hup, hstep⟩ := bind_eq_some_iff.mp hstep
  cases AgentProcess.move_of_step hstep with
  | begins hfrom => cases hfrom
  | opens hboot =>
    have hsound := h.reached.sound.up hup
    have hsweeps := h.sweeps up hup
    refine ⟨hnext, fun hready => absurd ⟨_, rfl, rfl⟩ hready, fun _ {a holder} ha hholder => ?_⟩
    cases hholder with
    | nobody hfree =>
      show _ = false
      rw [Bool.eq_false_iff]
      intro hpresent
      have hfound := hsweeps.found (by rw [hboot]; rfl) ha hpresent
      rw [hboot] at hfound
      rcases hfound with hmem | ⟨name, info, log, task, hentry, haddress⟩
      · cases hmem
      · have hsup := hsound.owned.running_supervisor hentry
        obtain ⟨pc, vm, info', log', hpc, hentry', hvm⟩ := hsound.supervising hsup
        cases hentry.symm.trans hentry'
        refine hfree name (.running task info log pc vm) (.up rfl (.running hsup hentry hpc)) ?_
        exact hvm.vmAddress.symm.trans haddress
    | somebody hs hat =>
      cases hs.of_up with
      | loading | absent | ended => cases hat
      | launching hlaunch hname hpc =>
        have hnone := (hsound.booting (by simp [hboot])).1
        cases (hnone _).symm.trans hlaunch
      | running hsup hentry hpc =>
        cases hat
        have hleft := hsweeps.supervising hsup hpc
        exact hleft.clears

theorem Holder.Clears.of_has {holder} (h : Holder.Clears objects holder)
    (hhas : later.has = objects.has) : Holder.Clears later holder := by
  cases holder with
  | none => exact (Objects.present_of_has hhas).trans h
  | some holder => exact Standing.Clears.of_has h hhas

/-- What a step does at one address. -/
theorem PlaceMove.clears {holder holder'} (h : PlaceMove node next a event holder holder')
    (hnode : node.Reached subnet) (hready : node.Ready) (hafter : next.Ready)
    (hclear : ClearsUp node event) (hholder : node.Occupied a holder)
    (hclears : Holder.Clears (node.host.objectsAt (hostId a)) holder) :
    Holder.Clears (next.host.objectsAt (hostId a)) holder' := by
  cases h with
  | rests hrests => exact hclears.of_has hrests.has
  | swept hup hsweep =>
    obtain ⟨up, hup', hboot⟩ := hready
    cases hup.symm.trans hup'
    rw [hboot] at hsweep
    cases hsweep
  | begun hlaunch hhost =>
    rw [hhost]
    exact covers_nil hclears
  | adopted hhost => exact covers_undoSteps _
  | launchStep hlaunch heffect =>
    subst hlaunch
    cases hholder with
    | somebody hs =>
      obtain ⟨hnetns, hclean⟩ := hclear.launch hnode hs
      exact Launch.clears_step heffect hclears hnetns hclean
  | handedOver hhost =>
    rw [hhost]
    exact hclears
  | asked hhost htake =>
    obtain ⟨hpc, hpc'⟩ := SupervisePc.not_cleared_of_take htake
    rw [Holder.Clears, Standing.Clears, hpc] at hclears
    rw [hhost, Holder.Clears, Standing.Clears, hpc']
    exact hclears
  | superviseStep hvm heffect =>
    subst hvm
    cases hholder with
    | somebody hs => exact Vm.clears_step heffect hclears (hclear.supervise hs)
  | released hleaves hobjects =>
    rw [hobjects]
    exact Standing.Clears.not_present hclears hleaves
  | down hhost hdown =>
    obtain ⟨up, hup, -⟩ := hafter
    cases hdown.symm.trans hup

theorem System.Cleared.step (h : node.Cleared subnet) (hclear : ClearsUp node event)
    (hstep : node.step subnet event = some next) : next.Cleared subnet := by
  have hnext := h.reached.step hstep
  by_cases hready : node.Ready
  · rcases hready.step hstep with hafter | hdown
    · refine ⟨hnext, fun hnot => absurd hafter hnot, fun _ {a holder'} ha hholder' => ?_⟩
      obtain ⟨holder, hholder, hmove⟩ := h.reached.placeMove ha hstep hholder'
      exact hmove.clears h.reached hready hafter hclear hholder (h.places hready ha hholder)
    · have hnot := not_ready_of_none hdown
      refine ⟨hnext, fun _ => ⟨hnext, hnot, fun up hup => ?_⟩, fun hafter => absurd hafter hnot⟩
      cases hdown.symm.trans hup
  · have hsweeping := h.starting hready
    by_cases hopen : ∃ machines, event = .openSocket machines
    · obtain ⟨machines, rfl⟩ := hopen
      exact hsweeping.opened hstep
    · have hafter := hsweeping.step (fun machines heq => hopen ⟨machines, heq⟩)
        hclear.cleansUp hstep
      exact ⟨hnext, fun _ => hafter, fun hnot => absurd hnot hafter.not_ready⟩

end Cirrocumulus.Node
