/-
# Parked VMs

A park moves a VM's files from its jail into a directory of their own, and a wake moves
them back, while the row says which of the two owns them. A park is safe at every point:
the row says parked only once all files are in place. A wake is not: it moves the files
first and records the VM last, and an agent that starts sweeps the jail of a wake that
was cut short, files and all, while the row still says parked. So parked VMs survive
every crash that does not hit a wake in between.
-/

import Cirrocumulus.Node.Records

namespace Cirrocumulus.Node

open Lib List
open Std (ExtTreeMap)

variable {pc : LaunchPc} {item : JailFile × SnapshotFile}

/-- A snapshot directory that holds all of `SNAPSHOT_FILES`. -/
def Whole (snapshot : Option (List SnapshotFile)) : Prop :=
  ∃ files, snapshot = some files ∧ ∀ file : SnapshotFile, file ∈ files

instance : DecidablePred Whole
  | none => isFalse (by simp [Whole])
  | some files =>
    decidable_of_iff (.vmstate ∈ files ∧ .mem ∈ files ∧ .rootfs ∈ files) <| by
      constructor
      · rintro ⟨hvmstate, hmem, hrootfs⟩
        refine ⟨files, rfl, fun file => ?_⟩
        cases file with
        | vmstate => exact hvmstate
        | mem => exact hmem
        | rootfs => exact hrootfs
      · rintro ⟨_, hsome, hall⟩
        cases hsome
        exact ⟨hall _, hall _, hall _⟩

/-- The row says that the VM is parked. -/
def RowParked (name : Str) (row : Option Row) : Prop :=
  ∃ found, row = some found ∧ isParked (found.record name).info = true

/-! ## Where a snapshot's files are -/

/-- Each file of a snapshot is in its directory, or in the jail and in `todo`. -/
def AtHand (vm : Vm) (view : View) (todo : List (JailFile × SnapshotFile)) : Prop :=
  ∃ files, view.snapshot = some files ∧ ∀ item ∈ wakeFiles, item.2 ∈ files ∨
    item ∈ todo ∧ vm.jailRoot = true ∧ ∃ inJail, view.objects.jail = some inJail ∧ item.1 ∈ inJail

/-- What a wake keeps of its snapshot, until it is recorded or lost. -/
def WakeKept (name : Str) (vm : Vm) (view : View) : LaunchPc → Prop
  | .addLinks | .awaitSocket => vm.jailRoot = true ∧ Whole view.snapshot
  | .moveIn todo _ => (∀ item ∈ todo, item ∈ wakeFiles) ∧ vm.jailRoot = true ∧
      AtHand vm view wakeFiles
  | .loadSnapshot | .record => AtHand vm view wakeFiles
  | .moveBack todo => (∀ item ∈ todo, item ∈ wakeFiles) ∧ AtHand vm view todo
  | .lose ended => ended.reason = .forced ∧ ¬ RowParked name view.row
  | .tidy _ | .handOver _ | .kill true | .unwind true | .markLost => True
  | .addNetns | .spawnJailer | .copyRootfs | .boot | .kill false | .unwind false | .giveUp =>
    Whole view.snapshot

/-- What a park has put in place. -/
def ParkKept (snapshot : Option (List SnapshotFile)) : SupervisePc → Prop
  | .moveOut todo false => ∀ item ∈ parkFiles, item ∈ todo ∨
      ∃ files, snapshot = some files ∧ item.2 ∈ files
  | .kill .parked | .unwind .parked | .record .parked => Whole snapshot
  | _ => True

theorem wakeFiles_inj {other} (hitem : item ∈ wakeFiles)
    (hother : other ∈ wakeFiles) : (item.1 = other.1 ↔ item = other) ∧
      (item.2 = other.2 ↔ item = other) := by
  simp only [wakeFiles, mem_cons, not_mem_nil, or_false] at hitem hother
  rcases hitem with rfl | rfl | rfl <;> rcases hother with rfl | rfl | rfl <;> simp

theorem exists_wakeFile (file : SnapshotFile) : ∃ item ∈ wakeFiles, item.2 = file := by
  cases file <;> simp [wakeFiles]

theorem exists_parkFile (file : SnapshotFile) : ∃ item ∈ parkFiles, item.2 = file := by
  cases file <;> simp [parkFiles]

section

variable {vm vm' : Vm} {view view' : View} {todo : List (JailFile × SnapshotFile)}
  {launch : Launch} {outcome : Outcome} {now fresh : Nat} {name : Str}

/-- A row that was marked as ended says why. -/
theorem rowParked_markEnded {row : Option Row} {ended}
    (h : RowParked name (row.map (·.markEnded ended))) : ended.reason = .parked := by
  obtain ⟨found, hfound, hparked⟩ := h
  obtain ⟨old, -, rfl⟩ := Option.map_eq_some_iff.mp hfound
  simpa [isParked, Row.record, Row.markEnded] using hparked

theorem AtHand.of_whole (h : Whole view.snapshot) : AtHand vm view todo := by
  obtain ⟨files, hfiles, hall⟩ := h
  exact ⟨files, hfiles, fun item _ => .inl (hall item.2)⟩

theorem AtHand.whole (h : AtHand vm view []) : Whole view.snapshot := by
  obtain ⟨files, hfiles, hall⟩ := h
  refine ⟨files, hfiles, fun file => ?_⟩
  obtain ⟨item, hitem, rfl⟩ := exists_wakeFile file
  rcases hall item hitem with hin | ⟨hnil, -⟩
  · exact hin
  · cases hnil

/-- A file goes into the jail, and stays at hand. -/
theorem AtHand.moveIn {moved}
    (h : AtHand vm view wakeFiles) (hitem : item ∈ wakeFiles) (hroot : vm.jailRoot)
    (hmoved : view.moveIn item.1 item.2 = some moved) : AtHand vm moved wakeFiles := by
  obtain ⟨files, hfiles, hall⟩ := h
  obtain ⟨found, inJail, hfound, hjail, rfl⟩ := View.moveIn_eq_some hmoved
  cases hfiles.symm.trans hfound
  refine ⟨_, rfl, fun other hother => ?_⟩
  by_cases heq : other = item
  · subst heq
    exact .inr ⟨hother, hroot, _, rfl, mem_cons_self⟩
  · rcases hall other hother with hin | ⟨-, -, inJail', hjail', hmem⟩
    · have hne : other.2 ≠ item.2 := fun h => heq ((wakeFiles_inj hother hitem).2.mp h)
      exact .inl (mem_filter.mpr ⟨hin, by simpa using hne⟩)
    · cases hjail.symm.trans hjail'
      exact .inr ⟨hother, hroot, _, rfl, mem_cons_of_mem _ hmem⟩

/-- A file comes back out of the jail. -/
theorem AtHand.moveBack {moved} (h : AtHand vm view (item :: todo)) (hitem : item ∈ wakeFiles)
    (hmoved : view.moveOut item.1 item.2 = some moved) : AtHand vm moved todo := by
  obtain ⟨files, hfiles, hall⟩ := h
  obtain ⟨found, inJail, hfound, hjail, rfl⟩ := View.moveOut_eq_some hmoved
  cases hfiles.symm.trans hfound
  refine ⟨_, rfl, fun other hother => ?_⟩
  by_cases heq : other = item
  · subst heq
    exact .inl mem_cons_self
  · obtain ⟨hfst, hsnd⟩ := wakeFiles_inj hother hitem
    rcases hall other hother with hin | ⟨hmem, hroot, inJail', hjail', hin⟩
    · have hne : other.2 ≠ item.2 := fun h => heq (hsnd.mp h)
      exact .inl (mem_cons_of_mem _ (mem_filter.mpr ⟨hin, by simpa using hne⟩))
    · cases hjail.symm.trans hjail'
      have hne : other.1 ≠ item.1 := fun h => heq (hfst.mp h)
      rcases mem_cons.mp hmem with rfl | hmem
      · exact absurd rfl heq
      · exact .inr ⟨hmem, hroot, _, rfl, mem_filter.mpr ⟨hin, by simpa using hne⟩⟩

/-- A file that is not in the jail was in place. -/
theorem AtHand.inPlace (h : AtHand vm view (item :: todo))
    (hnot : vm.jailRoot → view.moveOut item.1 item.2 = none) : AtHand vm view todo := by
  obtain ⟨files, hfiles, hall⟩ := h
  refine ⟨files, hfiles, fun other hother => ?_⟩
  rcases hall other hother with hin | ⟨hmem, hroot, inJail, hjail, hin⟩
  · exact .inl hin
  · rcases mem_cons.mp hmem with rfl | hmem
    · have hsome := @View.moveOut_isSome view other.1 other.2 _ _ hfiles hjail hin
      rw [hnot hroot] at hsome
      cases hsome
    · exact .inr ⟨hmem, hroot, inJail, hjail, hin⟩

/-! ## What a wake keeps -/

/-- A wake that fails has its snapshot at hand. -/
theorem WakeKept.atHand_of_failure (h : WakeKept name vm view pc)
    (hfailure : Launch.Failure outcome vm view pc vm' view') : AtHand vm' view' wakeFiles := by
  cases hfailure with
  | addNetns | spawnJailer | copyRootfs | boot => exact AtHand.of_whole h
  | addLinks | awaitSocket => exact AtHand.of_whole h.2
  | moveIn => exact h.2.2
  | loadSnapshot => exact h

/-- What a wake keeps goes by the row, the snapshot and the jail alone. -/
theorem WakeKept.of_same (h : WakeKept name vm view pc)
    (hrow : view'.row = view.row) (hsnapshot : view'.snapshot = view.snapshot)
    (hjail : view'.objects.jail = view.objects.jail) : WakeKept name vm view' pc := by
  have hhand {todo} :
      AtHand vm view' todo ↔ AtHand vm view todo := by
    unfold AtHand
    rw [hsnapshot, hjail]
  cases pc <;> simp only [WakeKept, hhand, hrow, hsnapshot] at h ⊢ <;> exact h

/-- A rename of a launch. -/
def LaunchPc.renames : LaunchPc → Bool
  | .moveIn (_ :: _) _ | .moveBack (_ :: _) => true
  | _ => false

/-- A wake keeps its snapshot at hand, as long as its renames succeed, and one that is lost
says so in its row. -/
theorem WakeKept.step {parked : Replaced} {pc'}
    (hkind : launch.kind = .wake parked) (h : WakeKept name vm view pc)
    (hrename : pc.renames → outcome = .ok) (hlost : pc = .markLost → outcome = .ok)
    (hstep : launch.step fresh outcome now pc vm view = some (pc', vm', view')) :
    WakeKept name vm' view' pc' := by
  cases Launch.effect_of_step hstep with
  | addNetns | addLinks | copyRootfs | loadSnapshot | givesUp => exact h
  | spawnJailer => exact ⟨rfl, h⟩
  | starts hstart | fails hstart => cases hkind.symm.trans hstart
  | wakes => exact ⟨fun _ hitem => hitem, h.1, AtHand.of_whole h.2⟩
  | boot => exact AtHand.of_whole h
  | moveIn hok hmoved =>
    obtain ⟨htodo, hroot, hhand⟩ := h
    obtain ⟨hitem, htodo⟩ := forall_mem_cons.mp htodo
    exact ⟨htodo, hroot, hhand.moveIn hitem hroot hmoved⟩
  | notMovedIn =>
    exact ⟨(forall_mem_cons.mp h.1).2, h.2⟩
  | movedIn => exact h.2.2
  | record | tidy | loses => trivial
  | unrecorded =>
    rw [Launch.isWake, hkind]
    trivial
  | moveBack hok hroot hmoved =>
    obtain ⟨htodo, hhand⟩ := h
    obtain ⟨hitem, htodo⟩ := forall_mem_cons.mp htodo
    exact ⟨htodo, hhand.moveBack hitem hmoved⟩
  | notMovedBack hnone =>
    exact ⟨(forall_mem_cons.mp h.1).2, h.2.inPlace (hnone (hrename rfl))⟩
  | movedBack => exact h.2.whole
  | @kill lost | @undo lost =>
    cases lost with
    | true => trivial
    | false => exact h
  | markLost =>
    refine ⟨rfl, fun hparked => ?_⟩
    rw [if_pos (hlost rfl)] at hparked
    cases rowParked_markEnded hparked
  | failsToWake hwake hfailure => exact ⟨fun _ hitem => hitem, h.atHand_of_failure hfailure⟩

/-! ## What a park keeps -/

theorem ParkKept.step {pc pc' reason} (h : ParkKept view.snapshot pc)
    (hstep : vm.supervise outcome reason pc view = some (pc', vm', view')) :
    ParkKept view'.snapshot pc' := by
  -- An end that nobody asked for is no park.
  have hnatural (hreason : reason.natural) (snapshot : Option (List SnapshotFile)) :
      ParkKept snapshot (.kill reason) := by
    cases reason <;> trivial
  cases Vm.effect_of_supervise hstep with
  | ends hdead hreason | endsUnasked hfailed hdead hreason => exact hnatural hreason _
  | parkKill => exact fun item hitem => .inl hitem
  | @moveOut item todo failed moved hok hmoved =>
    obtain ⟨files, inJail, hfiles, -, rfl⟩ := View.moveOut_eq_some hmoved
    cases failed with
    | true => trivial
    | false =>
      intro other hother
      by_cases heq : other.2 = item.2
      · exact .inr ⟨_, rfl, by rw [heq]; exact mem_cons_self⟩
      · rcases h other hother with hmem | ⟨found, hfound, hmem⟩
        · rcases mem_cons.mp hmem with rfl | hmem
          · exact absurd rfl heq
          · exact .inl hmem
        · cases hfiles.symm.trans hfound
          exact .inr ⟨_, rfl, mem_cons_of_mem _
            (mem_filter.mpr ⟨hmem, by simpa using heq⟩)⟩
  | movedOut =>
    have hall (item : JailFile × SnapshotFile) (hitem : item ∈ parkFiles) :
        ∃ files, view.snapshot = some files ∧ item.2 ∈ files :=
      (h item hitem).resolve_left not_mem_nil
    obtain ⟨files, hfiles, -⟩ := hall (.rootfs, .rootfs) (by simp [parkFiles])
    refine ⟨files, hfiles, fun file => ?_⟩
    obtain ⟨item, hitem, rfl⟩ := exists_parkFile file
    obtain ⟨found, hfound, hmem⟩ := hall item hitem
    cases hfiles.symm.trans hfound
    exact hmem
  | @dropDir lost => cases lost <;> trivial
  | stops hdead hreason => rcases hreason with rfl | rfl <;> trivial
  | @kill why | @undo why | @undone why => cases why <;> trivial
  | _ => trivial

/-- A request to a supervisor is no park that is done. -/
theorem ParkKept.of_take {pc pc' : SupervisePc} {stop} (htake : pc.take stop = some pc')
    (snapshot : Option (List SnapshotFile)) : ParkKept snapshot pc' := by
  unfold SupervisePc.take at htake
  split at htake <;> cases htake <;> trivial

/-! ## One name -/

/-- What a start or a wake keeps of a parked VM. A start replaces none. -/
structure LaunchKept (host : Host) (name : Str) (launch : Launch) (pc : LaunchPc) (vm : Vm) :
    Prop where
  start : ∀ {replaced}, launch.kind = .start replaced → ¬ RowParked name host.rows[name]? ∧
    ∀ old, replaced = some old → isParked old.info = false
  wake : ∀ {parked}, launch.kind = .wake parked → isParked parked.info ∧
    WakeKept name vm (host.view name launch.vmAddress) pc

/-- What a Node keeps of a parked VM under a name whose removal nobody asked for. -/
def Standing.Kept (host : Host) (name : Str) : Standing → Prop
  | .down | .loading => RowParked name host.rows[name]? → Whole host.snapshots[name]?
  | .absent => True
  | .ended info _ removal => removal = none ∧
      (isParked info = true → Whole host.snapshots[name]?) ∧
      (RowParked name host.rows[name]? → isParked info = true)
  | .launching _ launch pc vm => LaunchKept host name launch pc vm
  | .running _ _ _ pc _ => ParkKept host.snapshots[name]? pc

variable {host later : Host} {row : Option Row} {task : Nat} {info : VmInfo} {log : Str}

theorem not_rowParked_of_absent (h : Standing.absent.Recorded name row) : ¬ RowParked name row := by
  rintro ⟨found, hfound, -⟩
  rw [show row = none from h] at hfound
  cases hfound

theorem not_rowParked_of_running {pc}
    (h : (Standing.running task info log pc vm).Recorded name row) : ¬ RowParked name row := by
  obtain ⟨hended, found, hfound, hrecord⟩ := h
  rintro ⟨other, hother, hparked⟩
  cases hfound.symm.trans hother
  rw [hrecord, isParked, hended] at hparked
  cases hparked

theorem not_rowParked_of_recorded (h : (Standing.launching task launch pc vm).Recorded name row)
    (hpc : pc.recorded) : ¬ RowParked name row := by
  obtain ⟨startedAt, hstarted⟩ := Option.isSome_iff_exists.mp hpc
  obtain ⟨process, -, hrow⟩ := h.1 startedAt hstarted
  rintro ⟨found, hfound, hparked⟩
  cases hrow.symm.trans hfound
  cases hparked

theorem isParked_endedInfo {ended} :
    isParked (endedInfo info ended) ↔ ended.reason = .parked := by
  simp [isParked, endedInfo]

theorem LaunchKept.step {pc' : LaunchPc} (h : LaunchKept host name launch pc vm)
    (hrename : pc.renames → outcome = .ok) (hlost : pc = .markLost → outcome = .ok)
    (hstep : launch.step fresh outcome now pc vm (host.view name launch.vmAddress) =
      some (pc', vm', later.view name launch.vmAddress)) :
    LaunchKept later name launch pc' vm' := by
  refine ⟨fun hkind => ?_, fun hkind => ?_⟩
  · obtain ⟨hnot, hold⟩ := h.start hkind
    refine ⟨?_, hold⟩
    change ¬ RowParked name (later.view name launch.vmAddress).row
    generalize later.view name launch.vmAddress = view' at hstep
    cases (Launch.stepped hstep).row with
    | same hrow hstarted hvm =>
      rw [hrow]
      exact hnot
    | recorded hok hprocess =>
      rintro ⟨found, hfound, hparked⟩
      cases hfound
      cases hparked
    | lost hok =>
      intro hparked
      cases rowParked_markEnded hparked
  · obtain ⟨hparked, hkept⟩ := h.wake hkind
    exact ⟨hparked, hkept.step hkind hrename hlost hstep⟩

end

/-! ## Every run -/

/-- A wake of the name is under way and not recorded, and has files out of place. -/
def System.WakeAway (node : System) (name : Str) : Prop :=
  ∃ task launch pc vm, node.Stands name (.launching task launch pc vm) ∧
    launch.isWake = true ∧ pc.recorded = false ∧ (∀ ended, pc ≠ .lose ended) ∧
    ¬ Whole node.host.snapshots[name]?

/-- Nobody asks for the name's removal, and renames succeed. -/
def Undisturbed (name : Str) (node : System) (event : NodeEvent) : Prop :=
  event ≠ .remove name ∧
    ∀ pc, node.launchPc event = some pc → pc.renames = true → event.outcome = .ok

/-- The agent does not crash while a wake of the name has files out of place, and a wake
that is lost can be marked so. -/
def SparesWakes (name : Str) (node : System) (event : NodeEvent) : Prop :=
  (event = .crash → ¬ node.WakeAway name) ∧
    (node.launchPc event = some .markLost → event.outcome = .ok)

section

variable {node next : System} {name : Str} {event : NodeEvent} {s s' : Standing}

theorem System.Stands.launchPc {task now launch vm}
    (h : node.Stands name (.launching task launch pc vm)) (outcome : Outcome) :
    node.launchPc (.launch task outcome now) = some pc := by
  cases h with
  | up hup hs =>
    cases hs with
    | launching hlaunch hname hpc => simp [System.launchPc, hup, hpc]

/-- What is kept goes by the name's row, snapshot and jail alone. -/
theorem Standing.Kept.of_untouched {host later} (h : s.Kept host name)
    (hsame : Untouched host later name s) : s.Kept later name := by
  cases s with
  | down | loading =>
    intro hparked
    rw [hsame.row] at hparked
    rw [hsame.snapshot]
    exact h hparked
  | absent => trivial
  | ended info log removal =>
    unfold Standing.Kept
    rw [hsame.row, hsame.snapshot]
    exact h
  | launching task launch pc vm =>
    refine ⟨fun hkind => ?_, fun hkind => ?_⟩
    · rw [hsame.row]
      exact h.start hkind
    · obtain ⟨hparked, hkept⟩ := h.wake hkind
      refine ⟨hparked, hkept.of_same hsame.row hsame.snapshot (hsame.jail rfl)⟩
  | running task info log pc vm =>
    unfold Standing.Kept
    rw [hsame.snapshot]
    exact h

/-- A Node that goes down keeps what it kept, unless that is in a wake's jail. -/
theorem Standing.Kept.down (hs : node.Stands name s)
    (hrecorded : s.Recorded name node.host.rows[name]?) (h : s.Kept node.host name)
    (hcrash : event = .crash ∨ ∀ task launch pc vm, s ≠ .launching task launch pc vm)
    (hok : SparesWakes name node event) : Standing.down.Kept node.host name := by
  intro hparked
  cases s with
  | down => exact h hparked
  | loading => exact h hparked
  | absent => exact absurd hparked (not_rowParked_of_absent hrecorded)
  | ended info log removal => exact h.2.1 (h.2.2 hparked)
  | launching task launch pc vm =>
    rcases hcrash with rfl | hnot
    · cases hkind : launch.kind with
      | start replaced => exact absurd hparked (h.start hkind).1
      | wake parked =>
        by_contra hwhole
        have hunrecorded : pc.recorded = false := by
          rw [Bool.eq_false_iff]
          exact fun hpc => not_rowParked_of_recorded hrecorded hpc hparked
        refine hok.1 rfl ⟨task, launch, pc, vm, hs, ?_, hunrecorded, ?_, hwhole⟩
        · rw [Launch.isWake, hkind]
        · rintro ended rfl
          exact (h.wake hkind).2.2 hparked
    · exact absurd rfl (hnot task launch pc vm)
  | running task info log pc vm => exact absurd hparked (not_rowParked_of_running hrecorded)

theorem Standing.Kept.step (hs : node.Stands name s)
    (hrecorded : s.Recorded name node.host.rows[name]?) (h : s.Kept node.host name)
    (hundisturbed : Undisturbed name node event) (hspares : SparesWakes name node event)
    (hmove : NameMove node next name event s s') : s'.Kept next.host name := by
  cases hmove with
  | untouched hsame => exact h.of_untouched hsame
  | down hhost hdown hcrash =>
    rw [hhost]
    exact h.down hs hrecorded hcrash hspares
  | loaded hhost hrow =>
    rw [hhost]
    exact h
  | unknown | adopted | handedOver | erased => trivial
  | dropped hs hunowned hhost =>
    rcases hs with rfl | rfl
    · rintro ⟨found, hfound, hparked⟩
      rw [hhost] at hfound
      rw [hunowned rfl found hfound] at hparked
      cases hparked
    · trivial
  | restored hhost hrow hended =>
    rw [hhost]
    refine ⟨rfl, fun hparked => h ⟨_, hrow, hparked⟩, ?_⟩
    rintro ⟨found, hfound, hparked⟩
    cases hrow.symm.trans hfound
    exact hparked
  | @gone outcome now row vmAddress process hhost hrow hended haddress hprocess hdead =>
    refine ⟨rfl, fun hparked => ?_, fun hparked => ?_⟩
    · cases isParked_endedInfo.mp hparked
    · rw [hhost, lookup_markEnded, if_pos rfl] at hparked
      cases rowParked_markEnded hparked
  | @begun event task launch subnet up hname hhost hup hready hreserves =>
    rw [hhost]
    refine ⟨fun {replaced} hkind => ?_, fun {parked} hkind => ?_⟩
    · rw [Launch.setAside, hkind] at h hrecorded
      refine ⟨fun hparked => ?_, fun old hold => hreserves.unparked old (hold ▸ hkind)⟩
      cases replaced with
      | none => exact not_rowParked_of_absent hrecorded hparked
      | some old =>
        have hold := h.2.2 hparked
        rw [hreserves.unparked old hkind] at hold
        cases hold
    · rw [Launch.setAside, hkind] at h
      have hparked := hreserves.parked parked hkind
      exact ⟨hparked, h.2.1 hparked⟩
  | @launchStep task now outcome launch pc pc' vm vm' hname hstep =>
    refine h.step (fun hrename => ?_) (fun hpc => ?_) hstep
    · exact hundisturbed.2 pc (hs.launchPc outcome) hrename
    · exact hspares.2 (hpc ▸ hs.launchPc outcome)
  | @gaveUp task now outcome launch vm hname hhost =>
    rw [hhost, Launch.setAside]
    cases hkind : launch.kind with
    | start replaced =>
      obtain ⟨hnot, hold⟩ := h.start hkind
      cases replaced with
      | none => trivial
      | some old =>
        refine ⟨rfl, fun hparked => ?_, fun hparked => absurd hparked hnot⟩
        rw [hold old rfl] at hparked
        cases hparked
    | wake parked =>
      obtain ⟨hparked, hwhole⟩ := h.wake hkind
      exact ⟨rfl, fun _ => hwhole, fun _ => hparked⟩
  | @lost task now outcome launch vm parked ended hname hhost hkind =>
    obtain ⟨hreason, hnot⟩ := (h.wake hkind).2
    rw [hhost]
    refine ⟨rfl, fun hparked => ?_, fun hparked => absurd hparked hnot⟩
    rw [isParked_endedInfo, hreason] at hparked
    cases hparked
  | asked hhost hready htake => exact .of_take htake _
  | @superviseStep task now outcome reason info log pc pc' vm vm' hstep =>
    have hkept : ParkKept (node.host.view name vm.vmAddress).snapshot pc := h
    exact hkept.step hstep
  | @recorded task now outcome reason why info log vm hhost =>
    refine ⟨rfl, fun hparked => ?_, fun hparked => ?_⟩
    · have hwhy : why = .parked := isParked_endedInfo.mp hparked
      subst hwhy
      rw [hhost]
      exact h
    · rw [isParked_endedInfo]
      rw [hhost] at hparked
      dsimp only at hparked
      split at hparked
      · rw [lookup_markEnded, if_pos rfl] at hparked
        exact rowParked_markEnded hparked
      · exact absurd hparked (not_rowParked_of_running hrecorded)
  | removing hhost hready => exact absurd rfl hundisturbed.1
  | unsnapped | notParked | deleted | undeleted => cases h.1

end

/-- The name is recorded as parked, in the store or in the table. -/
def System.RecordsParked (node : System) (name : Str) : Prop :=
  RowParked name node.host.rows[name]? ∨ ∃ (up : AgentProcess) (info : VmInfo) (log : Str),
    node.up = some up ∧ up.agent.vms[name]? = some (.ended info log) ∧ isParked info = true

/-- A wake of the name is in progress. -/
def System.Waking (node : System) (name : Str) : Prop :=
  ∃ (up : AgentProcess) (task : Nat) (launch : Launch), node.up = some up ∧
    up.agent.launches[task]? = some launch ∧ launch.name = name ∧ launch.isWake = true

/-- Where a run ends that spares wakes, every name that is recorded as parked, is not
being woken and was never removed has its whole snapshot. -/
theorem parked_vms_kept (subnet : Subnet) (name : Str) {schedule : List NodeEvent}
    {node : System} (hrun : run (System.step subnet) .fresh schedule = some node)
    (hundisturbed : Along (System.step subnet) (Undisturbed name) .fresh schedule)
    (hspares : Along (System.step subnet) (SparesWakes name) .fresh schedule)
    (hparked : node.RecordsParked name) (hidle : ¬ node.Waking name) :
    Whole node.host.snapshots[name]? := by
  have hreached := System.Reached.of_run hrun
  have hall {s} (hs : node.Stands name s) :
      s.Recorded name node.host.rows[name]? ∧ s.Kept node.host name := by
    refine (System.Reached.fresh subnet).preserves_from_down
      (fun node s => s.Recorded name node.host.rows[name]? ∧ s.Kept node.host name)
      (fun _ hok _ hs h hmove => ⟨h.1.step hmove, h.2.step hs h.1 hok.1 hok.2 hmove⟩)
      rfl ⟨trivial, ?_⟩ (hundisturbed.and hspares) hrun hs
    rintro ⟨found, hfound, -⟩
    simp [System.fresh, Host.empty] at hfound
  rcases hparked with hparked | ⟨up, info, log, hup, hentry, hparked⟩
  · obtain ⟨s, hs⟩ := hreached.exists_stands name
    obtain ⟨hrecorded, hkept⟩ := hall hs
    cases s with
    | down | loading => exact hkept hparked
    | absent => exact absurd hparked (not_rowParked_of_absent hrecorded)
    | ended info log removal => exact hkept.2.1 (hkept.2.2 hparked)
    | launching task launch pc vm =>
      cases hkind : launch.kind with
      | start replaced => exact absurd hparked (hkept.start hkind).1
      | wake parked =>
        refine absurd ?_ hidle
        obtain ⟨up, hup, hlaunch, hname, hpc⟩ := hs.of_launching
        exact ⟨up, task, launch, hup, hlaunch, hname, by rw [Launch.isWake, hkind]⟩
    | running task info log pc vm => exact absurd hparked (not_rowParked_of_running hrecorded)
  · exact (hall (.up hup (.ended hentry))).2.2.1 hparked

/-! ## A crash that loses a parked VM, and one that does not -/

/-- A VM starts and is parked. -/
def parkSchedule : List NodeEvent :=
  NodeEvent.boots 2 ++ NodeEvent.starts "web" 0 ++ NodeEvent.parks 1

/-- The agent crashes when the wake of a parked VM has moved the first of its files, and
the next one starts. -/
def cutWakeSchedule : List NodeEvent :=
  parkSchedule ++ .wakeVm "web" :: List.replicate 5 (.launch 2 .ok 0) ++
    .crash :: NodeEvent.boots 10

/-- A step that removes nothing and does not fail. -/
def NodeEvent.succeeds : NodeEvent → Bool
  | .remove _ => false
  | event => event.outcome == .ok

theorem undisturbed_of_succeeds {subnet name node} {schedule : List NodeEvent}
    (h : schedule.all NodeEvent.succeeds) :
    Along (System.step subnet) (Undisturbed name) node schedule := by
  refine .of_forall fun event hevent node => ?_
  have hsucceeds := all_eq_true.mp h event hevent
  cases event <;> simp_all [NodeEvent.succeeds, Undisturbed, NodeEvent.outcome]

theorem not_waking {node : System} {up} (hup : node.up = some up)
    (hempty : up.agent.launches.isEmpty) : ¬ node.Waking name := by
  rintro ⟨found, task, launch, hfound, hlaunch, -⟩
  cases hup.symm.trans hfound
  rw [ExtTreeMap.isEmpty_iff.mp hempty] at hlaunch
  simp at hlaunch

/-- The row says parked, nothing is being woken, and a file is gone. -/
theorem parked_vm_lost_by_crash :
    ∃ node, run (System.step .sample) .fresh cutWakeSchedule = some node ∧
      Along (System.step .sample) (Undisturbed "web") .fresh cutWakeSchedule ∧
      node.RecordsParked "web" ∧ ¬ node.Waking "web" ∧
      ¬ Whole node.host.snapshots["web".toList]? := by
  obtain ⟨node, hrun, hwhole, ⟨row, hrow, hparked⟩, up, hup, hempty⟩ : ∃ node,
      run (System.step .sample) .fresh cutWakeSchedule = some node ∧
      ¬ Whole node.host.snapshots["web".toList]? ∧
      (∃ row, node.host.rows["web".toList]? = some row ∧
        isParked (row.record "web").info) ∧
      ∃ up, node.up = some up ∧ up.agent.launches.isEmpty := by decide +kernel
  exact ⟨node, hrun, undisturbed_of_succeeds (by decide), .inl ⟨row, hrow, hparked⟩,
    not_waking hup hempty, hwhole⟩

def NodeEvent.isCrash : NodeEvent → Bool
  | .crash => true
  | _ => false

theorem sparesWakes_of_succeeds {subnet name node} {schedule : List NodeEvent}
    (h : schedule.all fun event => event.succeeds && !event.isCrash) :
    Along (System.step subnet) (SparesWakes name) node schedule := by
  refine .of_forall fun event hevent node => ?_
  have hsucceeds := all_eq_true.mp h event hevent
  cases event <;> simp_all [NodeEvent.succeeds, NodeEvent.isCrash, SparesWakes, NodeEvent.outcome]

/-- The agent crashes when the VM is parked, and the next one starts. -/
def keptSchedule : List NodeEvent := parkSchedule ++ .crash :: NodeEvent.boots 4

/-- The theorem applies: a parked VM is there after a crash. -/
theorem parked_vm_kept_by_crash :
    ∃ node, run (System.step .sample) .fresh keptSchedule = some node ∧
      node.RecordsParked "web" ∧ Whole node.host.snapshots["web".toList]? := by
  obtain ⟨node, hrun, ⟨row, hrow, hrowParked⟩, up, hup, hempty⟩ : ∃ node,
      run (System.step .sample) .fresh keptSchedule = some node ∧
      (∃ row, node.host.rows["web".toList]? = some row ∧
        isParked (row.record "web").info) ∧
      ∃ up, node.up = some up ∧ up.agent.launches.isEmpty := by decide +kernel
  have hparked : ((run (System.step .sample) .fresh parkSchedule).all fun node =>
      node.up.all fun up => up.agent.launches.isEmpty) := by decide +kernel
  have hrecords : node.RecordsParked "web" := .inl ⟨row, hrow, hrowParked⟩
  refine ⟨node, hrun, hrecords, parked_vms_kept .sample "web" hrun
    (undisturbed_of_succeeds (by decide)) ?_ hrecords (not_waking hup hempty)⟩
  refine .append (sparesWakes_of_succeeds (by decide)) fun middle hmiddle =>
    ⟨⟨fun _ => ?_, fun _ => rfl⟩, fun next _ => sparesWakes_of_succeeds (by decide)⟩
  rw [hmiddle] at hparked
  rintro ⟨task, launch, pc, vm, hs, -⟩
  obtain ⟨up, hup, hlaunch, -⟩ := hs.of_launching
  simp only [Option.all_some, hup] at hparked
  rw [ExtTreeMap.isEmpty_iff.mp hparked] at hlaunch
  simp at hlaunch

end Cirrocumulus.Node
