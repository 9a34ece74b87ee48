/-
# The effects of one VM's tasks, taken apart

What each step of a start, a wake or a supervisor can have been, and what it did. A step
of a launch that fails leads to the same place wherever it was, so the failures are listed
apart. Whatever is proved of a VM's life goes by these cases, and never by how the steps
are computed.
-/

import Cirrocumulus.Node.Lifecycle

namespace Cirrocumulus.Node

open List Option

@[simp]
theorem Objects.procs_undo (objects : Objects) (step : Undo) :
    (objects.undo step).procs = objects.procs := by
  cases step <;> rfl

theorem Objects.procs_kill_subset (objects : Objects) (process : Option ProcessId) :
    ∀ p ∈ (objects.kill process).procs, p ∈ objects.procs := by
  cases process with
  | none => exact fun _ h => h
  | some process => exact fun p h => (mem_filter.mp h).1

theorem Objects.procs_killAll_subset (objects : Objects) :
    ∀ p ∈ objects.killAll.procs, p ∈ objects.procs := by
  unfold killAll
  split
  · simp
  · exact fun _ h => h

theorem Objects.not_mem_procs_kill (objects : Objects) (process : ProcessId) :
    process ∉ (objects.kill (some process)).procs := by
  simp [kill]

theorem View.moveIn_eq_some {view moved : View} {jailFile file}
    (h : view.moveIn jailFile file = some moved) :
    ∃ files inJail, view.snapshot = some files ∧ view.objects.jail = some inJail ∧
      moved = { view with
        snapshot := some (files.filter (· ≠ file))
        objects := { view.objects with jail := some (jailFile :: inJail) } } := by
  unfold moveIn at h
  split at h
  · rename_i files inJail hfiles hjail
    split at h
    · cases h
      exact ⟨files, inJail, hfiles, hjail, by rw [Objects.withFile, hjail]; rfl⟩
    · cases h
  · cases h

theorem View.moveOut_eq_some {view moved : View} {jailFile file}
    (h : view.moveOut jailFile file = some moved) :
    ∃ files inJail, view.snapshot = some files ∧ view.objects.jail = some inJail ∧
      moved = { view with
        snapshot := some (file :: files.filter (· ≠ file))
        objects := { view.objects with jail := some (inJail.filter (· ≠ jailFile)) } } := by
  unfold moveOut at h
  split at h
  · rename_i files inJail hfiles hjail
    split at h
    · cases h
      exact ⟨files, inJail, hfiles, hjail, by rw [Objects.withoutFile, hjail]; rfl⟩
    · cases h
  · cases h

/-- A rename whose source and target are there takes place. -/
theorem View.moveOut_isSome {view : View} {jailFile file files inJail}
    (hfiles : view.snapshot = some files) (hjail : view.objects.jail = some inJail)
    (hmem : jailFile ∈ inJail) : (view.moveOut jailFile file).isSome := by
  simp [moveOut, hfiles, hjail, hmem]

theorem View.ite_objects (view : View) (p : Prop) [Decidable p] (objects : Objects) :
    (if p then { view with objects } else view) =
      { view with objects := if p then objects else view.objects } := by
  split <;> rfl

/-! ## A start or a wake -/

/-- A step of a launch that fails, and what it leaves. -/
inductive Launch.Failure (outcome : Outcome) (vm : Vm) (view : View) :
    LaunchPc → Vm → View → Prop
  | addNetns (hfailed : outcome ≠ .ok) :
      Failure outcome vm view .addNetns vm
        { view with objects := outcome.applied ({ · with netns := true }) view.objects }
  /-- Jailer was spawned and exited, or was not spawned. -/
  | spawnJailer {objects} (hfailed : outcome = .partly ∧ objects = view.objects.spawn [] ∨
        outcome = .failed ∧ objects = view.objects) :
      Failure outcome vm view .spawnJailer
        { vm with undo := .cgroup :: .jail :: vm.undo, jailRoot := true } { view with objects }
  | addLinks (hfailed : outcome ≠ .ok) :
      Failure outcome vm view .addLinks { vm with undo := .link :: vm.undo }
        { view with objects := outcome.applied ({ · with link := true }) view.objects }
  | copyRootfs (hfailed : outcome ≠ .ok) :
      Failure outcome vm view .copyRootfs vm
        { view with objects := outcome.applied (·.withFile .rootfs) view.objects }
  | awaitSocket (hfailed : outcome ≠ .ok) : Failure outcome vm view .awaitSocket vm view
  | boot (hfailed : outcome ≠ .ok) : Failure outcome vm view .boot vm view
  | moveIn : Failure outcome vm view (.moveIn [] true) vm view
  | loadSnapshot (hfailed : outcome ≠ .ok) : Failure outcome vm view .loadSnapshot vm view

/-- The steps of a launch, each with what it needs. -/
inductive Launch.Effect (launch : Launch) (fresh : ProcessId) (outcome : Outcome) (now : Nat)
    (vm : Vm) (view : View) : LaunchPc → LaunchPc → Vm → View → Prop
  | addNetns (hok : outcome = .ok) :
      Effect launch fresh outcome now vm view .addNetns .spawnJailer
        { vm with undo := .netns :: vm.undo }
        { view with objects := { view.objects with netns := true } }
  | spawnJailer (hok : outcome = .ok) :
      Effect launch fresh outcome now vm view .spawnJailer .addLinks
        { vm with
          undo := .cgroup :: .jail :: vm.undo
          jailRoot := true
          process := some fresh }
        { view with objects := view.objects.spawn [fresh] }
  | addLinks (hok : outcome = .ok) :
      Effect launch fresh outcome now vm view .addLinks .awaitSocket
        { vm with undo := .link :: vm.undo }
        { view with objects := { view.objects with link := true } }
  /-- The host is set up, for a start. -/
  | starts {replaced} (hkind : launch.kind = .start replaced) (hok : outcome = .ok) :
      Effect launch fresh outcome now vm view .awaitSocket .copyRootfs vm view
  /-- The host is set up, for a wake. -/
  | wakes {parked} (hkind : launch.kind = .wake parked) (hok : outcome = .ok) :
      Effect launch fresh outcome now vm view .awaitSocket (.moveIn wakeFiles false) vm view
  | copyRootfs (hok : outcome = .ok) :
      Effect launch fresh outcome now vm view .copyRootfs .boot vm
        { view with objects := view.objects.withFile .rootfs }
  | boot (hok : outcome = .ok) : Effect launch fresh outcome now vm view .boot .record vm view
  | moveIn {item todo failed moved} (hok : outcome = .ok)
      (hmoved : view.moveIn item.1 item.2 = some moved) :
      Effect launch fresh outcome now vm view (.moveIn (item :: todo) failed)
        (.moveIn todo failed) vm moved
  | notMovedIn {item todo failed} (hnone : outcome = .ok → view.moveIn item.1 item.2 = none) :
      Effect launch fresh outcome now vm view (.moveIn (item :: todo) failed)
        (.moveIn todo true) vm view
  | movedIn : Effect launch fresh outcome now vm view (.moveIn [] false) .loadSnapshot vm view
  | loadSnapshot (hok : outcome = .ok) :
      Effect launch fresh outcome now vm view .loadSnapshot .record vm view
  | record {process} (hok : outcome = .ok) (hprocess : vm.process = some process) :
      Effect launch fresh outcome now vm view .record (.tidy now) vm
        { view with row := some (runningRow (launch.info now) launch.log process) }
  | unrecorded (hfailed : outcome ≠ .ok) :
      Effect launch fresh outcome now vm view .record (.kill launch.isWake) vm view
  | tidy {startedAt snapshot} (hsnapshot : snapshot = view.snapshot ∨
        launch.isWake ∧ outcome = .ok ∧ view.snapshot = some [] ∧ snapshot = none) :
      Effect launch fresh outcome now vm view (.tidy startedAt) (.handOver startedAt) vm
        { view with snapshot }
  | moveBack {item todo moved} (hok : outcome = .ok) (hroot : vm.jailRoot)
      (hmoved : view.moveOut item.1 item.2 = some moved) :
      Effect launch fresh outcome now vm view (.moveBack (item :: todo)) (.moveBack todo) vm moved
  | notMovedBack {item todo}
      (hnone : outcome = .ok → vm.jailRoot → view.moveOut item.1 item.2 = none) :
      Effect launch fresh outcome now vm view (.moveBack (item :: todo)) (.moveBack todo) vm view
  | movedBack : Effect launch fresh outcome now vm view (.moveBack []) (.kill false) vm view
  | kill {lost} :
      Effect launch fresh outcome now vm view (.kill lost) (.unwind lost) vm
        { view with objects := view.objects.kill vm.process }
  | undo {lost step undo} (hundo : vm.undo = step :: undo) :
      Effect launch fresh outcome now vm view (.unwind lost) (.unwind lost) { vm with undo }
        { view with
          objects := if outcome = .ok then view.objects.undo step else view.objects }
  | givesUp (hundo : vm.undo = []) :
      Effect launch fresh outcome now vm view (.unwind false) .giveUp vm view
  | loses (hundo : vm.undo = []) :
      Effect launch fresh outcome now vm view (.unwind true) .markLost vm view
  | markLost :
      Effect launch fresh outcome now vm view .markLost (.lose ⟨now, .forced⟩) vm
        { view with
          row := if outcome = .ok then view.row.map (·.markEnded ⟨now, .forced⟩) else view.row }
  /-- A start fails. -/
  | fails {replaced pc vm' view'}
      (hkind : launch.kind = .start replaced) (hfailure : Failure outcome vm view pc vm' view') :
      Effect launch fresh outcome now vm view pc (.kill false) vm' view'
  /-- A wake fails, and puts its snapshot back. -/
  | failsToWake {parked pc vm' view'}
      (hkind : launch.kind = .wake parked) (hfailure : Failure outcome vm view pc vm' view') :
      Effect launch fresh outcome now vm view pc (.moveBack wakeFiles) vm' view'

section

variable {launch : Launch} {fresh : ProcessId} {outcome : Outcome} {now : Nat}
  {pc pc' : LaunchPc} {vm vm' : Vm} {view view' : View}

theorem Launch.Effect.onError (hfailure : Failure outcome vm view pc vm' view') :
    launch.Effect fresh outcome now vm view pc launch.onError vm' view' := by
  cases hkind : launch.kind with
  | start replaced =>
    rw [Launch.onError, hkind]
    exact .fails hkind hfailure
  | wake parked =>
    rw [Launch.onError, hkind]
    exact .failsToWake hkind hfailure

/-- A step that goes on or fails. -/
theorem Launch.Effect.next {target}
    (hok : outcome = .ok → launch.Effect fresh outcome now vm view pc target vm' view')
    (hfailed : outcome ≠ .ok → Failure outcome vm view pc vm' view') :
    launch.Effect fresh outcome now vm view pc
      (if outcome = .ok then target else launch.onError) vm' view' := by
  split
  · rename_i hcase
    exact hok hcase
  · rename_i hcase
    exact .onError (hfailed hcase)

theorem Launch.onUnrecorded_eq (launch : Launch) : launch.onUnrecorded = .kill launch.isWake := by
  rw [onUnrecorded, isWake]
  cases launch.kind <;> rfl

theorem Launch.Effect.of_moveIn {todo failed}
    (h : launch.step fresh outcome now (.moveIn todo failed) vm view = some (pc', vm', view')) :
    launch.Effect fresh outcome now vm view (.moveIn todo failed) pc' vm' view' := by
  cases todo with
  | nil =>
    cases h
    cases failed with
    | true => exact .onError .moveIn
    | false => exact .movedIn
  | cons item todo =>
    simp only [step] at h
    split at h
    · rename_i moved hmoved
      cases h
      obtain ⟨hok, hmoved⟩ := ite_none_right_eq_some.mp hmoved
      exact .moveIn hok hmoved
    · rename_i hnone
      cases h
      refine .notMovedIn fun hok => ?_
      rwa [if_pos hok] at hnone

theorem Launch.Effect.of_moveBack {todo}
    (h : launch.step fresh outcome now (.moveBack todo) vm view = some (pc', vm', view')) :
    launch.Effect fresh outcome now vm view (.moveBack todo) pc' vm' view' := by
  cases todo with
  | nil =>
    cases h
    exact .movedBack
  | cons item todo =>
    simp only [step] at h
    split at h
    · rename_i moved hmoved
      cases h
      obtain ⟨⟨hok, hroot⟩, hmoved⟩ := ite_none_right_eq_some.mp hmoved
      exact .moveBack hok hroot hmoved
    · rename_i hnone
      cases h
      refine .notMovedBack fun hok hroot => ?_
      rwa [if_pos ⟨hok, hroot⟩] at hnone

theorem Launch.Effect.of_record
    (h : launch.step fresh outcome now .record vm view = some (pc', vm', view')) :
    launch.Effect fresh outcome now vm view .record pc' vm' view' := by
  simp only [step] at h
  split at h
  · rename_i hok
    obtain ⟨process, hprocess, ⟨⟩⟩ := map_eq_some_iff.mp h
    exact .record hok hprocess
  · rename_i hfailed
    cases h
    rw [onUnrecorded_eq]
    exact .unrecorded hfailed

theorem Launch.Effect.of_unwind {lost}
    (h : launch.step fresh outcome now (.unwind lost) vm view = some (pc', vm', view')) :
    launch.Effect fresh outcome now vm view (.unwind lost) pc' vm' view' := by
  simp only [Launch.step] at h
  split at h
  · rename_i step undo hundo
    cases h
    rw [View.ite_objects]
    exact .undo hundo
  · rename_i hundo
    cases h
    cases lost with
    | true => exact .loses hundo
    | false => exact .givesUp hundo

theorem Launch.effect_of_step
    (h : launch.step fresh outcome now pc vm view = some (pc', vm', view')) :
    launch.Effect fresh outcome now vm view pc pc' vm' view' := by
  cases pc with
  | addNetns =>
    cases h
    by_cases hok : outcome = .ok
    · subst hok
      exact .addNetns rfl
    · simp only [if_neg hok]
      exact .onError (.addNetns hok)
  | spawnJailer =>
    cases outcome with
    | ok =>
      cases h
      exact .spawnJailer rfl
    | partly =>
      cases h
      exact .onError (.spawnJailer (.inl ⟨rfl, rfl⟩))
    | failed =>
      cases h
      exact .onError (.spawnJailer (.inr ⟨rfl, rfl⟩))
  | addLinks =>
    cases h
    refine .next (fun hok => ?_) .addLinks
    subst hok
    exact .addLinks rfl
  | awaitSocket =>
    cases h
    refine .next (fun hok => ?_) .awaitSocket
    unfold onHostUp
    split
    · rename_i hkind
      exact .starts hkind hok
    · rename_i hkind
      exact .wakes hkind hok
  | copyRootfs =>
    cases h
    refine .next (fun hok => ?_) .copyRootfs
    subst hok
    exact .copyRootfs rfl
  | boot =>
    cases h
    exact .next .boot .boot
  | moveIn todo failed => exact .of_moveIn h
  | loadSnapshot =>
    cases h
    exact .next .loadSnapshot .loadSnapshot
  | record => exact .of_record h
  | tidy startedAt =>
    cases h
    split
    · rename_i hempty
      simp only [Bool.and_eq_true, beq_iff_eq] at hempty
      obtain ⟨⟨hwake, hnil⟩, hok⟩ := hempty
      exact .tidy (.inr ⟨hwake, hok, hnil, rfl⟩)
    · exact .tidy (.inl rfl)
  | moveBack todo => exact .of_moveBack h
  | kill lost =>
    cases h
    exact .kill
  | unwind lost => exact .of_unwind h
  | markLost =>
    cases h
    have heffect := @Effect.markLost launch fresh outcome now vm view
    split
    · rename_i hok
      rwa [if_pos hok] at heffect
    · rename_i hfailed
      rwa [if_neg hfailed] at heffect
  | handOver | giveUp | lose => cases h

/-! ### Its row and its processes -/

/-- When the VM started, once it is recorded as running. -/
def LaunchPc.startedAt : LaunchPc → Option Nat
  | .tidy startedAt | .handOver startedAt => some startedAt
  | _ => none

/-- The VM is recorded as running, and its launch is about to hand it over. -/
def LaunchPc.recorded (pc : LaunchPc) : Bool := pc.startedAt.isSome

/-- What any step of a launch does to its VM's row and processes. -/
inductive Launch.RowStep (launch : Launch) (outcome : Outcome) (now : Nat) :
    LaunchPc → Vm → View → LaunchPc → Vm → View → Prop
  /-- The row stays, and the VM is recorded just if it was. -/
  | same {pc pc' : LaunchPc} {vm vm' view view'} (hrow : view'.row = view.row)
      (hpc : pc'.startedAt = pc.startedAt) (hvm : pc.recorded → vm' = vm) :
      Launch.RowStep launch outcome now pc vm view pc' vm' view'
  | recorded {vm view process} (hok : outcome = .ok) (hprocess : vm.process = some process) :
      Launch.RowStep launch outcome now .record vm view (.tidy now) vm
        { view with row := some (runningRow (launch.info now) launch.log process) }
  | lost {vm : Vm} {view} (hok : outcome = .ok) :
      Launch.RowStep launch outcome now .markLost vm view (.lose ⟨now, .forced⟩) vm
        { view with row := view.row.map (·.markEnded ⟨now, .forced⟩) }

/-- What any step of a launch does to what it holds. -/
structure Launch.Stepped (launch : Launch) (fresh : ProcessId) (outcome : Outcome) (now : Nat)
    (pc : LaunchPc) (vm : Vm) (view : View) (pc' : LaunchPc) (vm' : Vm) (view' : View) :
    Prop where
  row : launch.RowStep outcome now pc vm view pc' vm' view'
  vmAddress : vm'.vmAddress = vm.vmAddress
  process : vm'.process = vm.process ∨ vm'.process = some fresh
  procs : ∀ p ∈ view'.objects.procs, p ∈ view.objects.procs ∨ p = fresh

/-- A failing step is one of a VM that is not recorded, and leaves its row and its processes
alone. -/
structure Launch.Failed (pc : LaunchPc) (vm : Vm) (view : View) (vm' : Vm) (view' : View) :
    Prop where
  startedAt : pc.startedAt = none
  row : view'.row = view.row
  vmAddress : vm'.vmAddress = vm.vmAddress
  process : vm'.process = vm.process
  procs : view'.objects.procs = view.objects.procs

theorem Launch.Failure.failed (h : Failure outcome vm view pc vm' view') :
    Failed pc vm view vm' view' := by
  cases h with
  | addNetns | addLinks | copyRootfs => exact ⟨rfl, rfl, rfl, rfl, by cases outcome <;> rfl⟩
  | spawnJailer hfailed =>
    rcases hfailed with ⟨-, rfl⟩ | ⟨-, rfl⟩
    · exact ⟨rfl, rfl, rfl, rfl, rfl⟩
    · exact ⟨rfl, rfl, rfl, rfl, rfl⟩
  | awaitSocket | boot | moveIn | loadSnapshot => exact ⟨rfl, rfl, rfl, rfl, rfl⟩

theorem Launch.stepped (h : launch.step fresh outcome now pc vm view = some (pc', vm', view')) :
    launch.Stepped fresh outcome now pc vm view pc' vm' view' := by
  -- Most steps are of a VM that is not recorded, and leave its row and process alone.
  have hsame {pc pc' vm' view'} (hpc : pc.startedAt = none)
      (hpc' : pc'.startedAt = none) (hrow : view'.row = view.row)
      (haddress : vm'.vmAddress = vm.vmAddress) (hprocess : vm'.process = vm.process)
      (hprocs : ∀ p ∈ view'.objects.procs, p ∈ view.objects.procs) :
      launch.Stepped fresh outcome now pc vm view pc' vm' view' := by
    refine ⟨.same hrow (hpc'.trans hpc.symm) fun hrecorded => ?_, haddress, .inl hprocess,
      fun p hp => .inl (hprocs p hp)⟩
    rw [LaunchPc.recorded, hpc] at hrecorded
    cases hrecorded
  have hfails {pc pc' vm' view'} (hpc' : pc'.startedAt = none)
      (hfailure : Failure outcome vm view pc vm' view') :
      launch.Stepped fresh outcome now pc vm view pc' vm' view' := by
    have hfailed := hfailure.failed
    refine hsame hfailed.startedAt hpc' hfailed.row hfailed.vmAddress hfailed.process ?_
    rw [hfailed.procs]
    exact fun p hp => hp
  cases effect_of_step h with
  | addNetns | addLinks | starts | wakes | copyRootfs | boot | notMovedIn | movedIn |
    loadSnapshot | unrecorded | notMovedBack | movedBack | givesUp | loses =>
      exact hsame rfl rfl rfl rfl rfl fun p hp => hp
  | spawnJailer =>
    exact ⟨.same rfl rfl (by rintro ⟨⟩), rfl, .inr rfl,
      fun p hp => by simpa [Objects.spawn, or_comm] using hp⟩
  | moveIn hok hmoved =>
    obtain ⟨files, inJail, -, -, rfl⟩ := View.moveIn_eq_some hmoved
    exact hsame rfl rfl rfl rfl rfl fun p hp => hp
  | record hok hprocess => exact ⟨.recorded hok hprocess, rfl, .inl rfl, fun p hp => .inl hp⟩
  | tidy => exact ⟨.same rfl rfl fun _ => rfl, rfl, .inl rfl, fun p hp => .inl hp⟩
  | moveBack hok hroot hmoved =>
    obtain ⟨files, inJail, -, -, rfl⟩ := View.moveOut_eq_some hmoved
    exact hsame rfl rfl rfl rfl rfl fun p hp => hp
  | kill => exact hsame rfl rfl rfl rfl rfl (view.objects.procs_kill_subset _)
  | undo hundo =>
    refine hsame rfl rfl rfl rfl rfl fun p hp => ?_
    split at hp
    · rwa [Objects.procs_undo] at hp
    · exact hp
  | markLost =>
    split
    · rename_i hok
      exact ⟨.lost hok, rfl, .inl rfl, fun p hp => .inl hp⟩
    · exact hsame rfl rfl rfl rfl rfl fun p hp => hp
  | fails hkind hfailure | failsToWake hkind hfailure => exact hfails rfl hfailure

end

/-! ## A supervisor -/

/-- The steps of a supervisor, each with what it needs. -/
inductive Vm.Effect (vm : Vm) (outcome : Outcome) (reason : EndReason) (view : View) :
    SupervisePc → SupervisePc → Vm → View → Prop
  /-- The VMM has ended, and nothing had asked it to. -/
  | ends (hdead : vm.alive view = false) (hnatural : reason.natural) :
      Effect vm outcome reason view .watch (.kill reason) vm view
  | makeDir (hok : outcome = .ok) :
      Effect vm outcome reason view .makeDir .pause vm
        { view with snapshot := some (view.snapshot.getD []) }
  | noDir (hfailed : outcome ≠ .ok) :
      Effect vm outcome reason view .makeDir (.dropDir false) vm
        { view with snapshot := outcome.applied (fun old => some (old.getD [])) view.snapshot }
  | pause (hok : outcome = .ok) : Effect vm outcome reason view .pause .snapshot vm view
  | notPaused (hfailed : outcome ≠ .ok) :
      Effect vm outcome reason view .pause (.dropDir false) vm view
  | snapshot (hok : outcome = .ok) :
      Effect vm outcome reason view .snapshot .parkKill vm
        { view with objects := (view.objects.withFile .parkVmstate).withFile .parkMem }
  | noSnapshot (hfailed : outcome ≠ .ok) :
      Effect vm outcome reason view .snapshot (.dropDir (outcome == .partly)) vm
        { view with objects := (view.objects.withoutFile .parkVmstate).withoutFile .parkMem }
  | parkKill :
      Effect vm outcome reason view .parkKill (.moveOut parkFiles false) vm
        { view with objects := view.objects.kill vm.process }
  | moveOut {item todo failed moved} (hok : outcome = .ok)
      (hmoved : view.moveOut item.1 item.2 = some moved) :
      Effect vm outcome reason view (.moveOut (item :: todo) failed) (.moveOut todo failed) vm
        moved
  | notMovedOut {item todo failed} (hnone : outcome = .ok → view.moveOut item.1 item.2 = none) :
      Effect vm outcome reason view (.moveOut (item :: todo) failed) (.moveOut todo true) vm view
  | movedOut : Effect vm outcome reason view (.moveOut [] false) (.kill .parked) vm view
  | notAllOut : Effect vm outcome reason view (.moveOut [] true) (.dropDir true) vm view
  | dropDir {lost snapshot}
      (hsnapshot : outcome = .ok ∧ snapshot = none ∨ outcome = .partly ∧ snapshot = some [] ∨
        outcome = .failed ∧ snapshot = view.snapshot) :
      Effect vm outcome reason view (.dropDir lost) (if lost then .kill .forced else .watch) vm
        { view with snapshot }
  | askToStop (hok : outcome = .ok) : Effect vm outcome reason view .askToStop .stopping vm view
  | notAsked (hfailed : outcome ≠ .ok) (halive : vm.alive view) :
      Effect vm outcome reason view .askToStop (.kill .forced) vm view
  | endsUnasked (hfailed : outcome ≠ .ok) (hdead : vm.alive view = false)
      (hnatural : reason.natural) :
      Effect vm outcome reason view .askToStop (.kill reason) vm view
  | stops (hdead : vm.alive view = false) (hreason : reason = .graceful ∨ reason = .crashed) :
      Effect vm outcome reason view .stopping (.kill reason) vm view
  | kill {why} :
      Effect vm outcome reason view (.kill why) (.unwind why) vm
        { view with objects := view.objects.kill vm.process }
  | undo {why step undo} (hundo : vm.undo = step :: undo) :
      Effect vm outcome reason view (.unwind why) (.unwind why) { vm with undo } { view with
          objects := if outcome = .ok then view.objects.undo step else view.objects }
  | undone {why} (hundo : vm.undo = []) :
      Effect vm outcome reason view (.unwind why) (.record why) vm view

section

variable {vm vm' : Vm} {outcome : Outcome} {reason : EndReason} {pc pc' : SupervisePc}
  {view view' : View}

theorem Vm.effect_of_supervise (h : vm.supervise outcome reason pc view = some (pc', vm', view')) :
    vm.Effect outcome reason view pc pc' vm' view' := by
  cases pc with
  | watch =>
    simp only [supervise] at h
    obtain ⟨hends, ⟨⟩⟩ := ite_some_none_eq_some.mp h
    simp only [Bool.and_eq_true, Bool.not_eq_true'] at hends
    exact .ends hends.1 hends.2
  | makeDir =>
    cases h
    by_cases hok : outcome = .ok
    · subst hok
      exact .makeDir rfl
    · simp only [if_neg hok]
      exact .noDir hok
  | pause =>
    cases h
    by_cases hok : outcome = .ok
    · rw [if_pos hok]
      exact .pause hok
    · rw [if_neg hok]
      exact .notPaused hok
  | snapshot =>
    simp only [supervise] at h
    split at h
    · rename_i hok
      cases h
      exact .snapshot hok
    · rename_i hfailed
      cases h
      exact .noSnapshot hfailed
  | parkKill =>
    cases h
    exact .parkKill
  | moveOut todo failed =>
    cases todo with
    | nil =>
      cases h
      cases failed with
      | true => exact .notAllOut
      | false => exact .movedOut
    | cons item todo =>
      simp only [supervise] at h
      split at h
      · rename_i moved hmoved
        cases h
        obtain ⟨hok, hmoved⟩ := ite_none_right_eq_some.mp hmoved
        exact .moveOut hok hmoved
      · rename_i hnone
        cases h
        refine .notMovedOut fun hok => ?_
        rwa [if_pos hok] at hnone
  | dropDir lost =>
    cases h
    cases outcome with
    | ok => exact .dropDir (.inl ⟨rfl, rfl⟩)
    | partly => exact .dropDir (.inr (.inl ⟨rfl, rfl⟩))
    | failed => exact .dropDir (.inr (.inr ⟨rfl, rfl⟩))
  | askToStop =>
    simp only [supervise] at h
    split at h
    · rename_i hok
      cases h
      exact .askToStop hok
    · rename_i hfailed
      split at h
      · rename_i halive
        cases h
        exact .notAsked hfailed halive
      · rename_i hdead
        obtain ⟨hnatural, ⟨⟩⟩ := ite_some_none_eq_some.mp h
        exact .endsUnasked hfailed (Bool.not_eq_true _ ▸ hdead) hnatural
  | stopping =>
    simp only [supervise] at h
    obtain ⟨hends, ⟨⟩⟩ := ite_some_none_eq_some.mp h
    simp only [Bool.and_eq_true, Bool.not_eq_true', Bool.or_eq_true, beq_iff_eq] at hends
    exact .stops hends.1 hends.2
  | kill why =>
    cases h
    exact .kill
  | unwind why =>
    simp only [supervise] at h
    split at h
    · rename_i step undo hundo
      cases h
      rw [View.ite_objects]
      exact .undo hundo
    · rename_i hundo
      cases h
      exact .undone hundo
  | record why => cases h

/-! ### Its row and its processes -/

/-- The VM's VMM was killed, or had ended, before teardown went on. -/
def SupervisePc.torn : SupervisePc → Bool
  | .unwind _ | .record _ => true
  | _ => false

/-- What any step of a supervisor does to what it holds. -/
structure Vm.Supervised (vm : Vm) (pc : SupervisePc) (view : View) (pc' : SupervisePc) (vm' : Vm)
    (view' : View) : Prop where
  row : view'.row = view.row
  vmAddress : vm'.vmAddress = vm.vmAddress
  process : vm'.process = vm.process
  procs : ∀ p ∈ view'.objects.procs, p ∈ view.objects.procs
  torn : pc'.torn → pc.torn ∨
    ∀ p, vm.process = some p → p ∉ view'.objects.procs

theorem Vm.supervised (h : vm.supervise outcome reason pc view = some (pc', vm', view')) :
    vm.Supervised pc view pc' vm' view' := by
  cases effect_of_supervise h with
  | ends | makeDir | noDir | pause | notPaused | snapshot | noSnapshot | notMovedOut | movedOut |
    notAllOut | askToStop | notAsked | endsUnasked | stops =>
      exact ⟨rfl, rfl, rfl, fun p hp => hp, by simp [SupervisePc.torn]⟩
  | parkKill =>
    exact ⟨rfl, rfl, rfl, view.objects.procs_kill_subset _, by simp [SupervisePc.torn]⟩
  | moveOut hok hmoved =>
    obtain ⟨files, inJail, -, -, rfl⟩ := View.moveOut_eq_some hmoved
    exact ⟨rfl, rfl, rfl, fun p hp => hp, by simp [SupervisePc.torn]⟩
  | dropDir =>
    refine ⟨rfl, rfl, rfl, fun p hp => hp, ?_⟩
    split <;> simp [SupervisePc.torn]
  | kill =>
    refine ⟨rfl, rfl, rfl, view.objects.procs_kill_subset _, fun _ => .inr fun p hp => ?_⟩
    rw [hp]
    exact view.objects.not_mem_procs_kill p
  | undo hundo =>
    refine ⟨rfl, rfl, rfl, fun p hp => ?_, fun _ => .inl rfl⟩
    split at hp
    · rwa [Objects.procs_undo] at hp
    · exact hp
  | undone => exact ⟨rfl, rfl, rfl, fun p hp => hp, fun _ => .inl rfl⟩

end

/-- A request changes nothing but what a supervisor does next, and ends no teardown. -/
theorem SupervisePc.torn_of_take {pc pc' : SupervisePc} {stop}
    (h : pc.take stop = some pc') : pc'.torn = false := by
  unfold take at h
  split at h <;> cases h <;> rfl

end Cirrocumulus.Node
