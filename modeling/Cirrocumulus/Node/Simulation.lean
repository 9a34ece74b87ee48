/-
# One VM, and the VMs of the Node

`run_until_ended` and `Vm::wake` are modelled twice. The Node knows of its VMs which host
objects and which files there are, and takes a call and what is done about its error as one
effect. `Supervisor` and `wake` follow one VM call by call, with what the files contain.

The Node can do whatever they do: its task takes the same requests and goes through the same
effects, and sees of the files which of them are there. Where one effect of the Node is two
calls, the Node waits for the second.
-/

import Mathlib.Logic.Relation
import Cirrocumulus.Node.Effects
import Cirrocumulus.Node.Supervisor

namespace Cirrocumulus.Node

open Lib (Files Rename)
open Relation (ReflTransGen)

variable {γ δ : Type} [DecidableEq δ] {files : Files δ Str γ} {snapshot jail old new : δ}
  {view view' : View} {vm : Vm}

/-! ## Files -/

theorem jailFile_name_injective : Function.Injective JailFile.name := by
  intro file other h
  cases file <;> cases other <;> first | rfl | exact absurd h (by decide)

theorem snapshotFile_name_injective : Function.Injective SnapshotFile.name := by
  intro file other h
  cases file <;> cases other <;> first | rfl | exact absurd h (by decide)

/-- The Node sees of a VM's files which of them are there. -/
structure Shows (files : Files δ Str γ) (snapshot jail : δ) (view : View) : Prop where
  apart : snapshot ≠ jail
  kept : files.Lists snapshot SnapshotFile.name view.snapshot
  jailed : files.Lists jail JailFile.name view.objects.jail

/-- A rename, as the Node sees it, takes place when it does. -/
def Moves (snapshot jail old new : δ) (rename : JailFile × SnapshotFile → Rename Str)
    (move : View → JailFile × SnapshotFile → Option View) : Prop :=
  ∀ (files : Files δ Str γ) (view : View) (file), Shows files snapshot jail view →
    ∃ moved, move view file = (if files.moves old new (rename file) then some moved else none) ∧
      moved.objects.procs = view.objects.procs ∧ (files.moves old new (rename file) = true →
        Shows (files.rename old new (rename file)) snapshot jail moved)

section

variable (h : Shows files snapshot jail view)
include h

theorem Shows.update_snapshot {inside kept}
    (hkept : Files.Lists ⟨Function.update files.dirs snapshot inside⟩ snapshot SnapshotFile.name
      kept) :
    Shows ⟨Function.update files.dirs snapshot inside⟩ snapshot jail
      { view with snapshot := kept } :=
  ⟨h.apart, hkept, h.jailed.of_dirs (Function.update_of_ne h.apart.symm _ _)⟩

theorem Shows.update_jail {inside jailed}
    (hjailed : Files.Lists ⟨Function.update files.dirs jail inside⟩ jail JailFile.name jailed) :
    Shows ⟨Function.update files.dirs jail inside⟩ snapshot jail
      { view with objects := { view.objects with jail := jailed } } :=
  ⟨h.apart, h.kept.of_dirs (Function.update_of_ne h.apart _ _), hjailed⟩

theorem Shows.withFile (file : JailFile) {content} (hcontent : content.isSome) :
    Shows (files.put jail file.name content) snapshot jail
      { view with objects := view.objects.withFile file } :=
  h.update_jail (h.jailed.put jailFile_name_injective file content (file :: ·)
    fun inside other => by by_cases heq : other = file <;> simp_all)

theorem Shows.withoutFile (file : JailFile) :
    Shows (files.put jail file.name none) snapshot jail
      { view with objects := view.objects.withoutFile file } :=
  h.update_jail (h.jailed.put jailFile_name_injective file none _ fun inside other => by
    by_cases heq : other = file <;> simp_all)

end

theorem View.moveOut_eq (view : View) (file : JailFile × SnapshotFile) :
    view.moveOut file.1 file.2 =
      if view.snapshot.isSome ∧ file.1 ∈ view.objects.jail.getD [] then
        some { view with
          snapshot := view.snapshot.map fun files => file.2 :: files.filter (· ≠ file.2)
          objects := view.objects.withoutFile file.1 }
      else none := by
  unfold View.moveOut
  cases view.snapshot <;> cases view.objects.jail <;> simp

theorem View.moveIn_eq (view : View) (file : JailFile × SnapshotFile) :
    view.moveIn file.1 file.2 =
      if view.objects.jail.isSome ∧ file.2 ∈ view.snapshot.getD [] then
        some { view with
          snapshot := view.snapshot.map (·.filter (· ≠ file.2))
          objects := view.objects.withFile file.1 }
      else none := by
  unfold View.moveIn
  cases view.snapshot <;> cases view.objects.jail <;> simp

theorem moves_moveOut (allowed : SnapshotFile → Bool) :
    Moves (γ := γ) snapshot jail jail snapshot
      (fun file => ⟨file.1.name, file.2.name, allowed file.2⟩)
      fun view file => if allowed file.2 then view.moveOut file.1 file.2 else none := by
  intro files view file h
  have hmoves : files.moves jail snapshot ⟨file.1.name, file.2.name, allowed file.2⟩ ↔
      allowed file.2 ∧ view.snapshot.isSome ∧ file.1 ∈ view.objects.jail.getD [] := by
    rw [h.jailed.mem, h.kept.hasDir]
    simp [Files.moves, and_assoc]
  refine ⟨{ view with
    snapshot := view.snapshot.map fun files => file.2 :: files.filter (· ≠ file.2)
    objects := view.objects.withoutFile file.1 }, ?_, rfl, fun htakes => ?_⟩
  · simp only [View.moveOut_eq, hmoves, ite_and]
  · have hout := h.withoutFile file.1
    rw [Files.rename, if_pos htakes]
    refine hout.update_snapshot (hout.kept.put snapshotFile_name_injective file.2 _ _
      fun inside other => ?_)
    by_cases heq : other = file.2 <;> simp_all [h.jailed.mem]

theorem moves_moveIn (allowed : SnapshotFile → Bool) :
    Moves (γ := γ) snapshot jail snapshot jail
      (fun file => ⟨file.2.name, file.1.name, allowed file.2⟩)
      fun view file => if allowed file.2 then view.moveIn file.1 file.2 else none := by
  intro files view file h
  have hmoves : files.moves snapshot jail ⟨file.2.name, file.1.name, allowed file.2⟩ ↔
      allowed file.2 ∧ view.objects.jail.isSome ∧
        file.2 ∈ view.snapshot.getD [] := by
    rw [h.kept.mem, h.jailed.hasDir]
    simp [Files.moves, and_assoc]
  refine ⟨{ view with
    snapshot := view.snapshot.map (·.filter (· ≠ file.2))
    objects := view.objects.withFile file.1 }, ?_, rfl, fun htakes => ?_⟩
  · simp only [View.moveIn_eq, hmoves, ite_and]
  · have hout := h.update_snapshot (h.kept.put snapshotFile_name_injective file.2 none
      (·.filter (· ≠ file.2)) fun inside other => by by_cases heq : other = file.2 <;> simp_all)
    rw [Files.rename, if_pos htakes]
    exact hout.withFile file.1 ((h.kept.mem _).mp (hmoves.mp htakes).2.2)

/-- Renames that are tried one by one do what `move_files` does. -/
theorem reaches_moveFiles {α : Type} {r : α → α → Prop}
    {rename : JailFile × SnapshotFile → Rename Str}
    {move : View → JailFile × SnapshotFile → Option View}
    (hmoves : Moves (γ := γ) snapshot jail old new rename move)
    (pos : List (JailFile × SnapshotFile) → Bool → View → α)
    (hstep : ∀ file todo failed view, r (pos (file :: todo) failed view)
      (match move view file with
      | some moved => pos todo failed moved
      | none => pos todo true view))
    (todo : List (JailFile × SnapshotFile)) (failed : Bool) (h : Shows files snapshot jail view) :
    ∃ view', ReflTransGen r (pos todo failed view)
        (pos [] (failed || !(files.moveFiles old new (todo.map rename)).2) view') ∧
      view'.objects.procs = view.objects.procs ∧
      Shows (files.moveFiles old new (todo.map rename)).1 snapshot jail view' := by
  induction todo generalizing files view failed with
  | nil => exact ⟨view, by simpa [Files.moveFiles] using .refl, rfl, h⟩
  | cons file todo ih =>
    have hfirst := hstep file todo failed view
    obtain ⟨moved, hmoved, hprocs, hshows⟩ := hmoves files view file h
    rw [hmoved] at hfirst
    simp only [List.map_cons, Files.moveFiles]
    cases hcan : files.moves old new (rename file) with
    | true =>
      rw [hcan] at hfirst
      obtain ⟨view', hreaches, hprocs', hshows'⟩ := ih failed (hshows hcan)
      exact ⟨view', .head hfirst hreaches, hprocs'.trans hprocs, hshows'⟩
    | false =>
      rw [hcan] at hfirst
      obtain ⟨view', hreaches, hprocs, hshows⟩ := ih true h
      rw [files.rename_of_not_moves hcan]
      refine ⟨view', .head hfirst ?_, hprocs, hshows⟩
      simpa using hreaches

/-! ## A supervisor -/

namespace Supervisor

/-- What the Node's task does about its VM, or what happens to it. -/
inductive TaskStep (vm : Vm) : SupervisePc × View → SupervisePc × View → Prop
  | takes {pc pc' view} (stop : Node.Stop) (h : pc.take stop = some pc') :
      TaskStep vm (pc, view) (pc', view)
  | effect {pc pc' view view'} (outcome : Outcome) (reason : EndReason)
      (h : vm.supervise outcome reason pc view = some (pc', vm, view')) :
      TaskStep vm (pc, view) (pc', view')
  | ends {pc view} :
      TaskStep vm (pc, view) (pc, { view with objects := view.objects.kill vm.process })

/-- Where the Node's task is meanwhile. -/
def Pc.onNode : Pc → SupervisePc
  | .waiting => .watch
  | .parking _ .creating => .makeDir
  | .parking _ .pausing => .pause
  | .parking _ .snapshotting | .parking _ .resuming => .snapshot
  | .parking _ .killing => .parkKill
  | .parking _ .moving => .moveOut parkFiles false
  | .parking _ (.removing lost) => .dropDir lost
  | .parking _ (.answering .ok) => .kill .parked
  | .parking _ (.answering .resumed) => .watch
  | .parking _ (.answering .lost) => .kill .forced
  | .asking => .askToStop
  | .stopping => .stopping
  | .killing => .kill .forced
  -- Here the VMM was killed, and teardown has nothing left to kill.
  | .returned .forced => .unwind .forced
  | .returned reason => .kill reason

/-- While the VM is being resumed, the files of its failed snapshot are gone already. -/
def Pc.shown : Pc → View → View
  | .parking _ .resuming, view =>
    { view with objects := (view.objects.withoutFile .parkVmstate).withoutFile .parkMem }
  | _, view => view

/-- Parks go into the directory of the VM's name. -/
def Pc.Within (path : Str) : Pc → Prop
  | .parking into _ => into = path
  | _ => True

@[inherit_doc Pc.Within]
def Event.Within (path : Str) : Event γ → Prop
  | .takes (some (.park into)) => into = path
  | _ => True

/-- What the Node's task sees of its VM. -/
structure Seen (path : Str) (vm : Vm) (s : Supervisor γ) (view : View) : Prop where
  alive : vm.alive view = s.vmm.ended.isNone
  shows : Shows s.files (.parked path) .jail (s.pc.shown view)
  within : s.pc.Within path

theorem natural_vmmNaturalEnd (vmm : Vmm) : (vmmNaturalEnd vmm).natural := by
  unfold vmmNaturalEnd naturalEnd
  split
  · rfl
  · split
    · rfl
    · split <;> rfl

theorem gracefulEnd_eq (vmm : Vmm) : gracefulEnd vmm = .graceful ∨ gracefulEnd vmm = .crashed := by
  unfold gracefulEnd
  split
  · exact .inr rfl
  · exact .inl rfl

theorem onNode_returned {reason} (h : reason.natural) :
    (Pc.returned reason).onNode = .kill reason := by
  cases reason with
  | forced => cases h
  | _ => rfl

variable {path : Str} {s s' : Supervisor γ}

/-- The task goes through the renames of a park one by one. -/
theorem reaches_moved (vm : Vm) (allowed : SnapshotFile → Bool) {files : Files Place Str γ}
    (h : Shows files (.parked path) .jail view) :
    ∃ view', ReflTransGen (TaskStep vm) (.moveOut parkFiles false, view)
        (if (files.moveFiles .jail (.parked path) (renamesOut allowed)).2 then .kill .parked
          else .dropDir true, view') ∧
      vm.alive view' = vm.alive view ∧
      Shows (files.moveFiles .jail (.parked path) (renamesOut allowed)).1 (.parked path) .jail
        view' := by
  obtain ⟨view', hmoves, hprocs, hshows⟩ := reaches_moveFiles (moves_moveOut allowed)
    (fun todo failed view => (SupervisePc.moveOut todo failed, view)) (r := TaskStep vm)
    (fun file todo failed view => by
      refine .effect (if allowed file.2 then .ok else .failed) .exited ?_
      cases allowed file.2 <;> cases hmoved : view.moveOut file.1 file.2 <;>
        simp [Vm.supervise, hmoved]) parkFiles false h
  refine ⟨view', hmoves.trans (.single (.effect .ok .exited ?_)),
    by rw [Vm.alive, Vm.alive, hprocs], hshows⟩
  change vm.supervise .ok .exited
    (.moveOut [] (false || !(files.moveFiles .jail (.parked path) (renamesOut allowed)).2)) _ = _
  cases (files.moveFiles .jail (.parked path) (renamesOut allowed)).2 <;> rfl

/-- The task can go where the supervisor goes, and still sees its VM. -/
def Followed (path : Str) (vm : Vm) (s : Supervisor γ) (view : View) (s' : Supervisor γ) : Prop :=
  ∃ view', ReflTransGen (TaskStep vm) (s.pc.onNode, view) (s'.pc.onNode, view') ∧
    s'.Seen path vm view'

variable (h : s.Seen path vm view)
include h

theorem Seen.gone (hpc : s'.pc.shown = s.pc.shown)
    (hwithin : s'.pc.Within path) (hended : s'.vmm.ended.isNone = false)
    (hfiles : s'.files = s.files) :
    s'.Seen path vm { view with objects := view.objects.kill vm.process } := by
  refine ⟨?_, ?_, hwithin⟩
  · rw [hended, Vm.alive]
    cases vm.process with
    | none => rfl
    | some process => simpa using view.objects.not_mem_procs_kill process
  · have hshown : (s.pc.shown { view with objects := view.objects.kill vm.process }).snapshot =
          (s.pc.shown view).snapshot ∧
        (s.pc.shown { view with objects := view.objects.kill vm.process }).objects.jail =
          (s.pc.shown view).objects.jail := by
      cases s.pc with
      | parking _ doing => cases doing <;> cases vm.process <;> exact ⟨rfl, rfl⟩
      | _ => cases vm.process <;> exact ⟨rfl, rfl⟩
    rw [hpc, hfiles]
    exact ⟨h.shows.apart, hshown.1 ▸ h.shows.kept, hshown.2 ▸ h.shows.jailed⟩

theorem Seen.step {event} (hwithin : event.Within path)
    (hstep : s.step event = some s') : Followed path vm s view s' := by
  have hup (hnone : s.vmm.ended = none) : vm.alive view := by rw [h.alive, hnone]; rfl
  have hgone (hended : s.vmm.ended.isSome) : vm.alive view = false := by
    rw [h.alive, Option.isNone_eq_false_iff]
    exact hended
  have hmove := move_of_step hstep
  obtain ⟨pc, vmm, files, parks⟩ := s
  cases hmove with
  | prints hnone => exact ⟨view, .refl, h.alive, h.shows, h.within⟩
  | ends hnone => exact ⟨_, .single .ends, h.gone rfl h.within rfl rfl⟩
  | notices hpc hended | askedEnded hpc hended =>
    cases hpc
    have hnatural := natural_vmmNaturalEnd vmm
    refine ⟨view, .single ?_, h.alive, h.shows, trivial⟩
    rw [onNode_returned hnatural]
    exact .effect .failed (vmmNaturalEnd vmm)
      (by simp [Pc.onNode, Vm.supervise, hgone hended, hnatural])
  | noticesStop hpc hended =>
    cases hpc
    refine ⟨view, .single (.effect .ok (gracefulEnd vmm) ?_), h.alive, h.shows, trivial⟩
    rcases gracefulEnd_eq vmm with hend | hend <;>
      simp [Pc.onNode, Vm.supervise, hgone hended, hend]
  | takesPark hpc =>
    cases hpc
    exact ⟨view, .single (.takes .park rfl), h.alive, h.shows, hwithin⟩
  | takesGraceful hpc =>
    cases hpc
    exact ⟨view, .single (.takes .graceful rfl), h.alive, h.shows, trivial⟩
  | refusesPark hpc =>
    cases hpc
    exact ⟨view, .single (.takes .park rfl), h.alive, h.shows, trivial⟩
  | keepsStopping hpc => exact ⟨view, .refl, h⟩
  | givesUp hpc =>
    rcases hpc with hpc | hpc <;> cases hpc <;>
      exact ⟨view, .single (.takes .force rfl), h.alive, h.shows, trivial⟩
  | asked hpc hnone | paused hpc hnone =>
    cases hpc
    exact ⟨view, .single (.effect .ok .exited rfl), h.alive, h.shows, h.within⟩
  | askedInVain hpc hnone =>
    cases hpc
    refine ⟨view, .single (.effect .failed .exited ?_), h.alive, h.shows, trivial⟩
    simp [Pc.onNode, Vm.supervise, hup hnone]
  | created hpc =>
    cases hpc
    cases h.within
    exact ⟨_, .single (.effect .ok .exited rfl), h.alive,
      h.shows.update_snapshot h.shows.kept.createDir, rfl⟩
  | notPaused hpc hdoing =>
    cases hpc
    rcases hdoing with rfl | rfl <;>
      exact ⟨view, .single (.effect .failed .exited rfl), h.alive, h.shows, h.within⟩
  | resumed hpc hnone =>
    cases hpc
    exact ⟨_, .single (.effect .failed .exited rfl), h.alive, h.shows, h.within⟩
  | notResumed hpc =>
    cases hpc
    exact ⟨_, .single (.effect .partly .exited rfl), h.alive, h.shows, h.within⟩
  | snapshot hpc hnone =>
    cases hpc
    exact ⟨_, .single (.effect .ok .exited rfl), h.alive,
      (h.shows.withFile .parkVmstate rfl).withFile .parkMem rfl, h.within⟩
  | noSnapshot hpc =>
    cases hpc
    exact ⟨view, .refl, h.alive,
      (h.shows.withoutFile .parkVmstate).withoutFile .parkMem, h.within⟩
  | @moved into allowed hpc hmoved | @notMoved into allowed hpc hmoved =>
    cases hpc
    cases h.within
    obtain ⟨view', hreaches, halive, hshows⟩ := reaches_moved vm allowed h.shows
    rw [hmoved] at hreaches
    exact ⟨view', hreaches, halive.trans h.alive, hshows, rfl⟩
  | kills hpc | killsParked hpc =>
    cases hpc
    exact ⟨_, .single (.effect .ok .exited rfl), h.gone rfl h.within rfl rfl⟩
  | @removes into lost hpc =>
    cases hpc
    cases h.within
    cases lost with
    | true | false =>
      exact ⟨_, .single (.effect .ok .exited rfl), h.alive, h.shows.update_snapshot .removeDir,
        rfl⟩
  | answersOk hpc | answersResumed hpc | answersLost hpc =>
    cases hpc
    exact ⟨view, .refl, h.alive, h.shows, trivial⟩

/-- Whatever a supervisor does in a run, the Node's task can do. -/
theorem Seen.run {schedule} (hwithin : ∀ event ∈ schedule, event.Within path)
    (hrun : Lib.run Supervisor.step s schedule = some s') : Followed path vm s view s' := by
  refine Lib.run_preserves (fun hevent hbefore hstep => ?_) ⟨view, .refl, h⟩
    (Lib.Along.of_forall fun event hevent _ => hwithin event hevent) hrun
  obtain ⟨before, hreaches, hseen⟩ := hbefore
  obtain ⟨after, hmore, hseen'⟩ := hseen.step hevent hstep
  exact ⟨after, hreaches.trans hmore, hseen'⟩

end Supervisor

/-! ## A wake -/

/-- One effect of a launch, whatever comes of it. -/
def Launch.Goes (launch : Launch) (before after : LaunchPc × Vm × View) : Prop :=
  ∃ fresh outcome now, launch.step fresh outcome now before.1 before.2.1 before.2.2 = some after

/-- What a launch of the Node knows of a VM being woken. -/
structure Waking.Seen (dirs : WakeDirs) (waking : Waking γ) (vm : Vm) (view : View) : Prop where
  shows : Shows waking.files dirs.snapshot dirs.jailRoot view
  jailRoot : waking.jailRoot = if vm.jailRoot then dirs.jailRoot else []
  undo : .jail ∈ vm.undo ↔ vm.jailRoot

/-- Teardown, where removing the jail may fail. -/
theorem reaches_unwind (launch : Launch) (fresh : ProcessId) (removed : Bool)
    (h : Shows files snapshot jail view) (vm : Vm) :
    ∃ vm' view', ReflTransGen launch.Goes (.unwind false, vm, view) (.giveUp, vm', view') ∧
      Shows (if .jail ∈ vm.undo ∧ removed then files.removeDir jail else files)
        snapshot jail view' := by
  obtain ⟨vmAddress, process, undo, jailRoot⟩ := vm
  induction undo generalizing view files with
  | nil => exact ⟨_, view, .single ⟨fresh, .ok, 0, rfl⟩, by simpa using h⟩
  | cons step undo ih =>
    by_cases hjail : step = .jail
    · subst hjail
      cases removed with
      | false =>
        obtain ⟨vm', view', hreaches, hshows⟩ := ih h
        exact ⟨vm', view', .head ⟨fresh, .failed, 0, rfl⟩ hreaches, by simpa using hshows⟩
      | true =>
        obtain ⟨vm', view', hreaches, hshows⟩ := ih (h.update_jail .removeDir)
        refine ⟨vm', view', .head ⟨fresh, .ok, 0, rfl⟩ hreaches, ?_⟩
        simpa [Files.removeDir] using hshows
    · have hsame : Shows files snapshot jail { view with objects := view.objects.undo step } := by
        cases step with
        | jail => exact absurd rfl hjail
        | _ => exact ⟨h.apart, h.kept, h.jailed⟩
      obtain ⟨vm', view', hreaches, hshows⟩ := ih hsame
      refine ⟨vm', view', .head ⟨fresh, .ok, 0, rfl⟩ hreaches, ?_⟩
      simpa [Ne.symm hjail] using hshows

section

variable {launch : Launch} {parked : Replaced} {dirs : WakeDirs} {files : Files Str Str γ}
  (hwake : launch.kind = .wake parked) (fresh : ProcessId)
include hwake fresh

theorem reaches_hostSteps (h : Shows files dirs.snapshot dirs.jailRoot view) (host : HostSteps)
    (vmAddress : Ipv4Addr) :
    ∃ vm view', ReflTransGen launch.Goes (.addNetns, .empty vmAddress, view)
        (if (hostSteps dirs files host).2 then .moveIn wakeFiles false else .moveBack wakeFiles,
          vm, view') ∧
      (hostSteps dirs files host).1.Seen dirs vm view' := by
  have honError : launch.onError = .moveBack wakeFiles := by rw [Launch.onError, hwake]
  have honHostUp : launch.onHostUp = .moveIn wakeFiles false := by rw [Launch.onHostUp, hwake]
  have hjail := h.update_jail h.jailed.createDir
  cases host with
  | noNetns =>
    refine ⟨_, view, .single ⟨fresh, .failed, 0, congrArg some (Prod.ext honError rfl)⟩, h, rfl, ?_⟩
    simp [Vm.empty]
  | failed jailed =>
    cases jailed with
    | false =>
      refine ⟨_, _, .head ⟨fresh, .ok, 0, rfl⟩
        (.single ⟨fresh, .failed, 0, congrArg some (Prod.ext honError rfl)⟩), ⟨?_, rfl, ?_⟩⟩
      · exact ⟨h.apart, h.kept, h.jailed⟩
      · simp
    | true =>
      refine ⟨_, _, .head ⟨fresh, .ok, 0, rfl⟩
        (.single ⟨fresh, .partly, 0, congrArg some (Prod.ext honError rfl)⟩), ⟨?_, rfl, ?_⟩⟩
      · exact ⟨h.apart, hjail.kept, hjail.jailed⟩
      · simp
  | done =>
    refine ⟨_, _, .head ⟨fresh, .ok, 0, rfl⟩ (.head ⟨fresh, .ok, 0, rfl⟩
      (.head ⟨fresh, .ok, 0, rfl⟩
        (.single ⟨fresh, .ok, 0, congrArg some (Prod.ext honHostUp rfl)⟩))), ⟨?_, rfl, ?_⟩⟩
    · exact ⟨h.apart, hjail.kept, hjail.jailed⟩
    · simp

/-- The snapshot goes into the jail, and Firecracker gets it. -/
theorem reaches_load (h : Shows (files.createDir dirs.jailRoot) dirs.snapshot dirs.jailRoot view)
    (run : WakeRun γ) (vm : Vm) :
    ∃ view', ReflTransGen launch.Goes (.moveIn wakeFiles false, vm, view)
        (if run.loads dirs files && run.load matches .loaded then .record
          else .moveBack wakeFiles, vm, view') ∧
      Shows (if run.loads dirs files then run.load.files dirs (run.movedIn dirs files)
        else run.movedIn dirs files) dirs.snapshot dirs.jailRoot view' := by
  have honError : launch.onError = .moveBack wakeFiles := by rw [Launch.onError, hwake]
  obtain ⟨view', hmoves, -, hshows⟩ := reaches_moveFiles (moves_moveIn run.moveIn)
    (fun todo failed view => (LaunchPc.moveIn todo failed, vm, view)) (r := launch.Goes)
    (fun file todo failed view => by
      refine ⟨fresh, if run.moveIn file.2 then .ok else .failed, 0, ?_⟩
      cases run.moveIn file.2 <;> cases hmoved : view.moveIn file.1 file.2 <;>
        simp [Launch.step, hmoved]) wakeFiles false h
  refine ⟨view', hmoves.trans ?_, ?_⟩
  · rw [← loads_eq]
    change ReflTransGen _ (LaunchPc.moveIn [] (false || !((files.createDir dirs.jailRoot).moveFiles
      dirs.snapshot dirs.jailRoot (renamesIn run.moveIn)).2), vm, view') _
    cases ((files.createDir dirs.jailRoot).moveFiles dirs.snapshot dirs.jailRoot
      (renamesIn run.moveIn)).2 with
    | false => exact .single ⟨fresh, .ok, 0, by simp [Launch.step, honError]⟩
    | true =>
      refine .head ⟨fresh, .ok, 0, rfl⟩ (.single ⟨fresh,
        if (wakeFiles.all fun file => run.chown file.1) && run.load matches .loaded then .ok
          else .failed, 0, ?_⟩)
      rw [Bool.true_and]
      cases (wakeFiles.all fun file => run.chown file.1) && run.load matches .loaded <;>
        simp [Launch.step, honError]
  · cases hloads : run.loads dirs files with
    | false => exact hshows
    | true =>
      cases hload : run.load with
      | loaded | refused => exact hshows
      | ran rootfs =>
        -- The rootfs the guest wrote to is the one that moved.
        have hrootfs : (.rootfs, .rootfs) ∈ wakeFiles := by decide
        have henters := (Bool.and_eq_true_iff.mp (List.all_eq_true.mp hloads _ hrootfs)).1
        have hmem : ((run.movedIn dirs files).get dirs.jailRoot JailFile.rootfs.name).isSome := by
          rw [(get_movedIn dirs files run hrootfs).2, if_pos henters]
          exact (Bool.and_eq_true_iff.mp henters).2
        exact ⟨dirs.apart, hshows.kept.of_dirs (Function.update_of_ne dirs.apart _ _),
          hshows.jailed.overwrite jailFile_name_injective ((hshows.jailed.mem .rootfs).mpr hmem)
            rootfs⟩

theorem reaches_wakeSteps (h : Shows files dirs.snapshot dirs.jailRoot view) (run : WakeRun γ)
    (vmAddress : Ipv4Addr) :
    ∃ vm view', ReflTransGen launch.Goes (.addNetns, .empty vmAddress, view)
        (if (wakeSteps dirs files run).2 then .record else .moveBack wakeFiles, vm, view') ∧
      (wakeSteps dirs files run).1.Seen dirs vm view' := by
  obtain ⟨vm, up, hup, hseen⟩ := reaches_hostSteps hwake fresh h run.host vmAddress
  cases hhost : run.host with
  | noNetns | failed jailed =>
    rw [hhost] at hup hseen
    simp only [wakeSteps, hhost]
    exact ⟨vm, up, hup, hseen⟩
  | done =>
    rw [hhost] at hup hseen
    obtain ⟨view', hload, hshows⟩ := reaches_load hwake fresh hseen.shows run vm
    rw [wakeSteps_of_done hhost]
    exact ⟨vm, view', hup.trans hload, hshows, hseen.jailRoot, hseen.undo⟩

omit hwake in
/-- The snapshot goes back, from the jail if there is one, and teardown follows. -/
theorem reaches_rollback {waking : Waking γ} (h : waking.Seen dirs vm view) (run : WakeRun γ)
    (hworking : vm.jailRoot = false →
      ∀ file ∈ wakeFiles, waking.files.get dirs.working file.1.name = none) :
    ∃ vm' view', ReflTransGen launch.Goes (.moveBack wakeFiles, vm, view) (.giveUp, vm', view') ∧
      Shows (Waking.teardown { waking with
        files := (waking.files.moveFiles (dirs.dirOf waking.jailRoot) dirs.snapshot
          (renamesBack run.moveBack)).1 } dirs run.removed) dirs.snapshot dirs.jailRoot view' := by
  obtain ⟨view', hmoves, -, hshows⟩ := reaches_moveFiles
    (moves_moveOut fun file => vm.jailRoot && run.moveBack file)
    (fun todo _ view => (LaunchPc.moveBack todo, vm, view)) (r := launch.Goes)
    (fun file todo failed view => by
      refine ⟨fresh, if run.moveBack file.2 then .ok else .failed, 0, ?_⟩
      cases run.moveBack file.2 <;> cases hroot : vm.jailRoot <;>
        cases hmoved : view.moveOut file.1 file.2 <;> simp [Launch.step, hroot, hmoved])
    wakeFiles false h.shows
  -- Without a jail both the rollback's renames and the Node's find nothing.
  have hfiles : (waking.files.moveFiles dirs.jailRoot dirs.snapshot
      (renamesBack fun file => vm.jailRoot && run.moveBack file)).1 =
        (waking.files.moveFiles (dirs.dirOf waking.jailRoot) dirs.snapshot
          (renamesBack run.moveBack)).1 := by
    rw [h.jailRoot]
    cases hroot : vm.jailRoot with
    | true => simp [dirOf_jailRoot]
    | false =>
      rw [Files.moveFiles_of_still, Files.moveFiles_of_still]
      · intro item hitem
        obtain ⟨file, hfile, rfl⟩ := List.mem_map.mp hitem
        exact .inl (by simp [Files.moves, WakeDirs.dirOf, hworking hroot file hfile])
      · intro item hitem
        obtain ⟨file, hfile, rfl⟩ := List.mem_map.mp hitem
        exact .inl (by simp [Files.moves])
  have hkilled : Shows (waking.files.moveFiles (dirs.dirOf waking.jailRoot) dirs.snapshot
      (renamesBack run.moveBack)).1 dirs.snapshot dirs.jailRoot
        { view' with objects := view'.objects.kill vm.process } := by
    rw [← hfiles]
    exact ⟨hshows.apart, hshows.kept, by cases vm.process <;> exact hshows.jailed⟩
  obtain ⟨vm', last, hunwind, hlast⟩ := reaches_unwind launch fresh run.removed hkilled vm
  refine ⟨vm', last,
    hmoves.trans (.head ⟨fresh, .ok, 0, rfl⟩ (.head ⟨fresh, .ok, 0, rfl⟩ hunwind)), ?_⟩
  have hundo : waking.jailRoot ≠ [] ↔ .jail ∈ vm.undo := by
    rw [h.jailRoot, h.undo]
    cases vm.jailRoot <;> simp [dirs.jailRoot_ne_nil]
  simpa only [Waking.teardown, hundo] using hlast

/-- Whatever a wake does, a launch of the Node can do, unless the working directory holds files
that the Node knows nothing of: it goes on with the same outcome, and sees the same files. -/
theorem reaches_wake (h : Shows files dirs.snapshot dirs.jailRoot view) (run : WakeRun γ)
    (hworking : run.host = .noNetns →
      ∀ file ∈ wakeFiles, files.get dirs.working file.1.name = none) (vmAddress : Ipv4Addr) :
    ∃ vm view', ReflTransGen launch.Goes (.addNetns, .empty vmAddress, view)
        (if (wake dirs files run).2 then .record else .giveUp, vm, view') ∧
      Shows (wake dirs files run).1 dirs.snapshot dirs.jailRoot view' := by
  obtain ⟨vm, view', hsteps, hseen⟩ := reaches_wakeSteps hwake fresh h run vmAddress
  cases hwoken : (wakeSteps dirs files run).2 with
  | true =>
    rw [hwoken] at hsteps
    simp only [wake, hwoken]
    exact ⟨vm, view', hsteps, hseen.shows⟩
  | false =>
    rw [hwoken] at hsteps
    have hstray : vm.jailRoot = false → ∀ file ∈ wakeFiles,
        (wakeSteps dirs files run).1.files.get dirs.working file.1.name = none := by
      intro hroot file hfile
      have hempty := hseen.jailRoot
      rw [hroot] at hempty
      cases hhost : run.host with
      | noNetns =>
        simp only [wakeSteps, hostSteps, hhost]
        exact hworking hhost file hfile
      | failed jailed =>
        simp only [wakeSteps, hostSteps, hhost] at hempty
        exact absurd hempty dirs.jailRoot_ne_nil
      | done =>
        rw [wakeSteps_of_done hhost] at hempty
        exact absurd hempty dirs.jailRoot_ne_nil
    obtain ⟨vm', last, hback, hlast⟩ := reaches_rollback fresh hseen run hstray
    simp only [wake, hwoken]
    exact ⟨vm', last, hsteps.trans hback, hlast⟩

end

end Cirrocumulus.Node
