/-
# Memory images

A park writes a guest's memory to a file of the jail and renames the file into the parked
VM's directory. A wake renames it into the new jail and resumes a guest from it, or renames
it back when the wake fails. What such a file holds is an image of a guest's memory, made
when the file was written; renaming a file moves its image along, and nothing copies it.

An album is a Node with the image in each memory file, and with the images that guests were
resumed from. Images are tokens, places are the memory files that are there, and resuming a
guest spends its image.
-/

import Cirrocumulus.Lib.Tokens
import Cirrocumulus.Node.Places

namespace Cirrocumulus.Node

open List Option
open Lib (Tokens)

variable {item : JailFile × SnapshotFile} {todo : List (JailFile × SnapshotFile)} {failed : Bool}

/-- A memory file: that of a parked VM, or one that a park or a wake has in a jail. -/
inductive MemFile
  | parked (name : Str)
  | park (id : Str)
  | wake (id : Str)
  deriving DecidableEq

def Host.hasMem (host : Host) : MemFile → Bool
  | .parked name => host.snapshots[name]?.any (·.contains .mem)
  | .park id => (host.objectsAt id).jail.any (·.contains .parkMem)
  | .wake id => (host.objectsAt id).jail.any (·.contains .wakeMem)

def View.hasParked (view : View) : Bool := view.snapshot.any (·.contains .mem)

def View.hasJailFile (view : View) (file : JailFile) : Bool :=
  view.objects.jail.any (·.contains file)

/-- What the memory files hold, and which images guests were resumed from, the last first. -/
structure Images where
  holds : MemFile → Nat
  next : Nat
  resumed : List Nat

namespace Images

variable (images : Images)

/-- A file is written with an image of its own. -/
def write (file : MemFile) : Images :=
  { images with holds := Function.update images.holds file images.next, next := images.next + 1 }

def rename (source target : MemFile) : Images :=
  { images with holds := Function.update images.holds target (images.holds source) }

/-- A guest is resumed from what the file holds. -/
def resume (file : MemFile) : Images :=
  { images with resumed := images.holds file :: images.resumed }

/-- What a launch's effect does to images. A snapshot whose load took effect is resumed,
also when the answer is an error. -/
def launched (launch : Launch) (outcome : Outcome) (pc : LaunchPc) (vm : Vm) (view : View) :
    Images :=
  let parked := MemFile.parked launch.name
  let wake := MemFile.wake (hostId launch.vmAddress)
  match pc with
  | .moveIn ((.wakeMem, .mem) :: _) _ =>
    if outcome = .ok ∧ (view.moveIn .wakeMem .mem).isSome then images.rename parked wake
    else images
  | .moveBack ((.wakeMem, .mem) :: _) =>
    if (outcome = .ok ∧ vm.jailRoot) ∧ (view.moveOut .wakeMem .mem).isSome then
      images.rename wake parked
    else images
  | .loadSnapshot =>
    if outcome ≠ .failed ∧ view.hasJailFile .wakeMem then images.resume wake else images
  | _ => images

/-- What a supervisor's effect does to images. -/
def supervised (name : Str) (outcome : Outcome) (pc : SupervisePc) (vm : Vm) (view : View) :
    Images :=
  let park := MemFile.park (hostId vm.vmAddress)
  match pc with
  | .snapshot => if outcome = .ok then images.write park else images
  | .moveOut ((.parkMem, .mem) :: _) _ =>
    if outcome = .ok ∧ (view.moveOut .parkMem .mem).isSome then
      images.rename park (.parked name)
    else images
  | _ => images

/-- Images as tokens, in the memory files that are there. -/
def tokens (host : Host) : Tokens MemFile where
  held file := if host.hasMem file then some (images.holds file) else none
  next := images.next
  spent := images.resumed

end Images

/-- A Node with its images. -/
structure Album where
  node : System
  images : Images

namespace Album

def fresh : Album := ⟨.fresh, ⟨fun _ => 0, 0, []⟩⟩

variable (album : Album)

/-- The images after an event of an agent at work. -/
def after (up : AgentProcess) : NodeEvent → Images
  | .launch task outcome _ =>
    match up.agent.launches[task]?, up.launching[task]? with
    | some launch, some (pc, vm) =>
      album.images.launched launch outcome pc vm
        (album.node.host.view launch.name launch.vmAddress)
    | _, _ => album.images
  | .supervise task outcome _ _ =>
    match up.agent.supervisors[task]?, up.supervising[task]? with
    | some name, some (pc, vm) =>
      album.images.supervised name outcome pc vm (album.node.host.view name vm.vmAddress)
    | _, _ => album.images
  | _ => album.images

end Album

def Album.step (subnet : Subnet) (album : Album) (event : NodeEvent) : Option Album :=
  (album.node.step subnet event).map fun node =>
    ⟨node, album.node.up.elim album.images (album.after · event)⟩

/-! ## One VM's files -/

section

variable {host : Host} {name : Str} {a : Ipv4Addr} {view : View} {file : MemFile}

theorem Host.hasMem_put_parked (other : Str) : (host.put name a view).hasMem (.parked other) =
    if other = name then view.hasParked else host.hasMem (.parked other) := by
  rw [hasMem, snapshots_put]
  split <;> rfl

theorem Host.hasMem_put_park (id : Str) : (host.put name a view).hasMem (.park id) =
    if id = hostId a then view.hasJailFile .parkMem else host.hasMem (.park id) := by
  rw [hasMem, objectsAt_put]
  split <;> rfl

theorem Host.hasMem_put_wake (id : Str) : (host.put name a view).hasMem (.wake id) =
    if id = hostId a then view.hasJailFile .wakeMem else host.hasMem (.wake id) := by
  rw [hasMem, objectsAt_put]
  split <;> rfl

/-- A slice that is put back brings the memory files that it has. -/
theorem Host.hasMem_of_put
    (hparked : file = .parked name → view.hasParked → (host.view name a).hasParked)
    (hpark : file = .park (hostId a) → view.hasJailFile .parkMem →
      (host.view name a).hasJailFile .parkMem)
    (hwake : file = .wake (hostId a) → view.hasJailFile .wakeMem →
      (host.view name a).hasJailFile .wakeMem)
    (h : (host.put name a view).hasMem file) : host.hasMem file := by
  cases file with
  | parked other =>
    rw [hasMem_put_parked] at h
    split at h
    · rename_i heq
      subst heq
      exact hparked rfl h
    · exact h
  | park id =>
    rw [hasMem_put_park] at h
    split at h
    · rename_i heq
      subst heq
      exact hpark rfl h
    · exact h
  | wake id =>
    rw [hasMem_put_wake] at h
    split at h
    · rename_i heq
      subst heq
      exact hwake rfl h
    · exact h

end

/-- A slice with no memory file that was not there. -/
structure View.Fewer (view later : View) : Prop where
  parked : later.hasParked → view.hasParked
  park : later.hasJailFile .parkMem → view.hasJailFile .parkMem
  wake : later.hasJailFile .wakeMem → view.hasJailFile .wakeMem

namespace View

variable {view later moved : View} {jailFile : JailFile} {file : SnapshotFile}

theorem Fewer.of_same (hsnapshot : later.snapshot = view.snapshot)
    (hjail : later.objects.jail = view.objects.jail) : view.Fewer later := by
  refine ⟨?_, ?_, ?_⟩ <;> simp only [hasParked, hasJailFile, hsnapshot, hjail] <;> exact id

theorem Fewer.hasMem {host : Host} {name a} (h : (host.view name a).Fewer later) (file : MemFile)
    (hfile : (host.put name a later).hasMem file) : host.hasMem file :=
  Host.hasMem_of_put (fun _ => h.parked) (fun _ => h.park) (fun _ => h.wake) hfile

/-- What a rename into the jail does to memory files. -/
theorem hasMem_moveIn (h : view.moveIn jailFile file = some moved) :
    view.snapshot.any (·.contains file) ∧
      (moved.hasParked ↔ view.hasParked ∧ file ≠ .mem) ∧
      ∀ other, moved.hasJailFile other ↔
        view.hasJailFile other ∨ other = jailFile := by
  unfold moveIn at h
  split at h
  · rename_i files inJail hfiles hjail
    split at h
    · rename_i hmem
      cases h
      refine ⟨by simpa [hfiles] using hmem, ?_, fun other => ?_⟩
      · simp only [hasParked, hfiles, any_some, contains_iff_mem, mem_filter,
          decide_eq_true_iff, ne_comm]
      · simp [hasJailFile, Objects.withFile, hjail, or_comm]
    · cases h
  · cases h

/-- What a rename out of the jail does to memory files. -/
theorem hasMem_moveOut (h : view.moveOut jailFile file = some moved) :
    view.hasJailFile jailFile ∧
      (moved.hasParked ↔ view.hasParked ∨ file = .mem) ∧
      ∀ other, moved.hasJailFile other ↔
        view.hasJailFile other ∧ other ≠ jailFile := by
  unfold moveOut at h
  split at h
  · rename_i files inJail hfiles hjail
    split at h
    · rename_i hmem
      cases h
      refine ⟨by simpa [hasJailFile, hjail] using hmem, ?_, fun other => ?_⟩
      · simp only [hasParked, hfiles, any_some, contains_iff_mem, mem_cons,
          mem_filter]
        by_cases heq : file = .mem
        · simp [heq]
        · simp [heq, Ne.symm heq]
      · simp [hasJailFile, Objects.withoutFile, hjail]
    · cases h
  · cases h

end View

/-! ## What steps do to images -/

/-- The renames a launch has left. -/
def LaunchPc.files : LaunchPc → List (JailFile × SnapshotFile)
  | .moveIn todo _ | .moveBack todo => todo
  | _ => []

/-- The renames a supervisor has left. -/
def SupervisePc.files : SupervisePc → List (JailFile × SnapshotFile)
  | .moveOut todo _ => todo
  | _ => []

/-- The launch may yet take a memory file out of its jail, to resume it or to put it back. -/
def LaunchPc.reads (launch : Launch) (vm : Vm) : LaunchPc → Bool
  | .addNetns | .moveBack _ => vm.jailRoot
  | .addLinks | .awaitSocket | .copyRootfs | .boot => launch.isWake
  | .moveIn _ _ | .loadSnapshot => true
  | _ => false

section

variable {later : Host} {images : Images} {launch : Launch} {fresh : ProcessId}
  {outcome : Outcome} {now : Nat} {pc pc' : LaunchPc} {vm vm' : Vm} {view' : View} {name : Str}
  {reason : EndReason} {doing doing' : SupervisePc}

/-- What a launch may yet use, from one step to the next: its renames are of the files
that a wake takes, and it comes to its jail when it spawns jailer. -/
structure Launch.Uses (launch : Launch) (pc : LaunchPc) (vm : Vm) (pc' : LaunchPc) (vm' : Vm) :
    Prop where
  files : ∀ item ∈ pc'.files, item ∈ pc.files ∨ item ∈ wakeFiles
  reads : pc'.reads launch vm' →
    pc.reads launch vm ∨ pc = .spawnJailer ∧ launch.isWake

variable {view moved : View}

/-- A wake that fails may have come to its jail. -/
theorem Launch.Failure.reads (h : Launch.Failure outcome vm view pc vm' view')
    (hwake : launch.isWake) (hroot : vm'.jailRoot) :
    pc.reads launch vm ∨ pc = .spawnJailer ∧ launch.isWake := by
  cases h with
  | addNetns => exact .inl hroot
  | spawnJailer => exact .inr ⟨rfl, hwake⟩
  | addLinks | awaitSocket | copyRootfs | boot => exact .inl hwake
  | moveIn | loadSnapshot => exact .inl rfl

theorem Launch.uses_of_step (h : launch.step fresh outcome now pc vm view = some (pc', vm', view'))
    :
    launch.Uses pc vm pc' vm' := by
  cases effect_of_step h with
  | spawnJailer => exact ⟨forall_mem_nil _, fun hwake => .inr ⟨rfl, hwake⟩⟩
  | addLinks | starts | copyRootfs => exact ⟨forall_mem_nil _, .inl⟩
  | wakes hkind =>
    refine ⟨fun item hitem => .inr hitem, fun _ => .inl ?_⟩
    rw [LaunchPc.reads, isWake, hkind]
  | moveIn | notMovedIn =>
    exact ⟨fun other hother => .inl (.tail _ hother), fun _ => .inl rfl⟩
  | movedIn => exact ⟨forall_mem_nil _, fun _ => .inl rfl⟩
  | moveBack | notMovedBack => exact ⟨fun other hother => .inl (.tail _ hother), .inl⟩
  | failsToWake hkind hfailure =>
    refine ⟨fun item hitem => .inr hitem, hfailure.reads ?_⟩
    rw [isWake, hkind]
  | _ => exact ⟨forall_mem_nil _, by rintro ⟨⟩⟩

theorem Objects.hasFile_undo (objects : Objects) (step : Undo) (file : JailFile)
    (h : (objects.undo step).jail.any (·.contains file)) :
    objects.jail.any (·.contains file) := by
  cases step with
  | jail => cases h
  | _ => exact h

/-- Host objects without a jail file that was not there. -/
theorem View.Fewer.of_objects {objects}
    (h : ∀ file, objects.jail.any (·.contains file) → view.hasJailFile file) :
    view.Fewer { view with objects } :=
  ⟨id, h .parkMem, h .wakeMem⟩

/-- What a launch's effect does to memory files and their images. -/
inductive Launch.MemStep (launch : Launch) (outcome : Outcome) (pc : LaunchPc) (vm : Vm)
    (view later : View) (images : Images) : Images → Prop
  | keeps (hless : view.Fewer later) : Launch.MemStep launch outcome pc vm view later images images
  | movesIn (hmoved : view.moveIn .wakeMem .mem = some later) :
      Launch.MemStep launch outcome pc vm view later images
        (images.rename (.parked launch.name) (.wake (hostId launch.vmAddress)))
  | movesBack (hreads : pc.reads launch vm)
      (hmoved : view.moveOut .wakeMem .mem = some later) :
      Launch.MemStep launch outcome pc vm view later images
        (images.rename (.wake (hostId launch.vmAddress)) (.parked launch.name))
  | resumes (hpc : pc = .loadSnapshot) (heffect : outcome ≠ .failed)
      (hthere : view.hasJailFile .wakeMem) (hsame : later = view) :
      Launch.MemStep launch outcome pc vm view later images
        (images.resume (.wake (hostId launch.vmAddress)))

/-- A rename that a wake does, of a file other than the memory. -/
theorem View.Fewer.of_moveIn (hitem : item ∈ wakeFiles) (hmem : item ≠ (.wakeMem, .mem))
    (hmoved : view.moveIn item.1 item.2 = some moved) : view.Fewer moved := by
  obtain ⟨-, hparked, hjail⟩ := hasMem_moveIn hmoved
  have hne (file : JailFile) (hfile : file = .parkMem ∨ file = .wakeMem) : file ≠ item.1 := by
    simp only [wakeFiles, mem_cons, not_mem_nil, or_false] at hitem
    rcases hitem with rfl | rfl | rfl
    · rcases hfile with rfl | rfl <;> simp
    · exact absurd rfl hmem
    · rcases hfile with rfl | rfl <;> simp
  exact ⟨fun h => (hparked.mp h).1, fun h => ((hjail _).mp h).resolve_right (hne _ (.inl rfl)),
    fun h => ((hjail _).mp h).resolve_right (hne _ (.inr rfl))⟩

/-- The same out of a jail. -/
theorem View.Fewer.of_moveOut (hmem : item.2 ≠ .mem)
    (hmoved : view.moveOut item.1 item.2 = some moved) : view.Fewer moved := by
  obtain ⟨-, hparked, hjail⟩ := hasMem_moveOut hmoved
  exact ⟨fun h => (hparked.mp h).resolve_right hmem, fun h => ((hjail _).mp h).1,
    fun h => ((hjail _).mp h).1⟩

theorem Images.launched_moveIn_of_ne (h : item ≠ (.wakeMem, .mem)) :
    images.launched launch outcome (.moveIn (item :: todo) failed) vm view = images := by
  obtain ⟨jailFile, file⟩ := item
  cases jailFile <;> cases file <;> first | rfl | exact absurd rfl h

theorem Images.launched_moveBack_of_ne (h : item ≠ (.wakeMem, .mem)) :
    images.launched launch outcome (.moveBack (item :: todo)) vm view = images := by
  obtain ⟨jailFile, file⟩ := item
  cases jailFile <;> cases file <;> first | rfl | exact absurd rfl h

/-- A rename that fails moves no image. -/
theorem Images.launched_notMovedIn (hnone : outcome = .ok → view.moveIn item.1 item.2 = none) :
    images.launched launch outcome (.moveIn (item :: todo) failed) vm view = images := by
  by_cases hmem : item = (.wakeMem, .mem)
  · subst hmem
    simp only [launched]
    rw [if_neg]
    rintro ⟨hok, hsome⟩
    rw [hnone hok] at hsome
    cases hsome
  · exact launched_moveIn_of_ne hmem

theorem Images.launched_notMovedBack
    (hnone : outcome = .ok → vm.jailRoot → view.moveOut item.1 item.2 = none) :
    images.launched launch outcome (.moveBack (item :: todo)) vm view = images := by
  by_cases hmem : item = (.wakeMem, .mem)
  · subst hmem
    simp only [launched]
    rw [if_neg]
    rintro ⟨⟨hok, hroot⟩, hsome⟩
    rw [hnone hok hroot] at hsome
    cases hsome
  · exact launched_moveBack_of_ne hmem

theorem Launch.memStep_moveIn (hitem : item ∈ wakeFiles)
    (hok : outcome = .ok) (hmoved : view.moveIn item.1 item.2 = some moved) :
    launch.MemStep outcome (.moveIn (item :: todo) failed) vm view moved images
      (images.launched launch outcome (.moveIn (item :: todo) failed) vm view) := by
  by_cases hmem : item = (.wakeMem, .mem)
  · subst hmem
    simp only [Images.launched]
    rw [if_pos ⟨hok, isSome_of_mem hmoved⟩]
    exact .movesIn hmoved
  · rw [Images.launched_moveIn_of_ne hmem]
    exact .keeps (.of_moveIn hitem hmem hmoved)

theorem Launch.memStep_moveBack (hitem : item ∈ wakeFiles) (hok : outcome = .ok)
    (hroot : vm.jailRoot) (hmoved : view.moveOut item.1 item.2 = some moved) :
    launch.MemStep outcome (.moveBack (item :: todo)) vm view moved images
      (images.launched launch outcome (.moveBack (item :: todo)) vm view) := by
  by_cases hmem : item = (.wakeMem, .mem)
  · subst hmem
    simp only [Images.launched]
    rw [if_pos ⟨⟨hok, hroot⟩, isSome_of_mem hmoved⟩]
    exact .movesBack hroot hmoved
  · rw [Images.launched_moveBack_of_ne hmem]
    have hsnd : item.2 ≠ .mem := by
      simp only [wakeFiles, mem_cons, not_mem_nil, or_false] at hitem
      rcases hitem with rfl | rfl | rfl <;> simp_all
    exact .keeps (.of_moveOut hsnd hmoved)

/-- A load that fails may have resumed the image. -/
theorem Launch.memStep_loadSnapshot : launch.MemStep outcome .loadSnapshot vm view view images
      (images.launched launch outcome .loadSnapshot vm view) := by
  simp only [Images.launched]
  split
  · rename_i heffect
    exact .resumes rfl heffect.1 heffect.2 rfl
  · exact .keeps (.of_same rfl rfl)

/-- Jailer leaves what is in its jail, and brings no memory file. -/
theorem View.Fewer.of_spawn (processes : List ProcessId) :
    view.Fewer { view with objects := view.objects.spawn processes } := by
  refine .of_objects fun file hfile => ?_
  cases hjail : view.objects.jail with
  | none => simp [Objects.spawn, hjail] at hfile
  | some inJail => simpa [Objects.spawn, hasJailFile, hjail] using hfile

/-- Nor is a rootfs one. -/
theorem View.Fewer.of_rootfs :
    view.Fewer { view with objects := view.objects.withFile .rootfs } := by
  have hcopied (file : JailFile) (hmem : file ≠ .rootfs)
      (hfile : (view.objects.withFile .rootfs).jail.any (·.contains file)) :
      view.hasJailFile file := by
    cases hjail : view.objects.jail with
    | none => simp [Objects.withFile, hjail] at hfile
    | some inJail => simpa [Objects.withFile, hasJailFile, hjail, hmem] using hfile
  exact ⟨id, hcopied .parkMem (by rintro ⟨⟩), hcopied .wakeMem (by rintro ⟨⟩)⟩

/-- One step of teardown. -/
theorem View.Fewer.of_undo {step} : view.Fewer { view with
      objects := if outcome = .ok then view.objects.undo step else view.objects } := by
  refine .of_objects fun file hfile => ?_
  split at hfile
  · exact view.objects.hasFile_undo step file hfile
  · exact hfile

theorem View.Fewer.of_kill (process : Option ProcessId) :
    view.Fewer { view with objects := view.objects.kill process } := by
  cases process <;> exact .of_same rfl rfl

theorem Launch.Failure.fewer (h : Launch.Failure outcome vm view pc vm' view') :
    view.Fewer view' := by
  cases h with
  | addNetns | addLinks => cases outcome <;> exact .of_same rfl rfl
  | spawnJailer hfailed =>
    rcases hfailed with ⟨-, rfl⟩ | ⟨-, rfl⟩
    · exact .of_spawn []
    · exact .of_same rfl rfl
  | copyRootfs hfailed =>
    cases outcome with
    | ok => exact absurd rfl hfailed
    | partly => exact .of_rootfs
    | failed => exact .of_same rfl rfl
  | awaitSocket | boot | moveIn | loadSnapshot => exact .of_same rfl rfl

theorem Launch.fewer_of_spawnJailer
    (h : launch.step fresh outcome now .spawnJailer vm view = some (pc', vm', view')) :
    view.Fewer view' := by
  cases effect_of_step h with
  | spawnJailer => exact .of_spawn _
  | fails hkind hfailure | failsToWake hkind hfailure => exact hfailure.fewer

theorem Launch.memStep_of_failure (h : Launch.Failure outcome vm view pc vm' view') :
    launch.MemStep outcome pc vm view view' images
      (images.launched launch outcome pc vm view) := by
  have hfewer := h.fewer
  cases h with
  | loadSnapshot => exact memStep_loadSnapshot
  | _ => exact .keeps hfewer

theorem Launch.memStep (hfiles : ∀ item ∈ pc.files, item ∈ wakeFiles)
    (h : launch.step fresh outcome now pc vm view = some (pc', vm', view')) :
    launch.MemStep outcome pc vm view view' images
      (images.launched launch outcome pc vm view) := by
  cases effect_of_step h with
  | spawnJailer => exact .keeps (.of_spawn _)
  | copyRootfs => exact .keeps .of_rootfs
  | moveIn hok hmoved => exact memStep_moveIn (hfiles _ (.head _)) hok hmoved
  | notMovedIn hnone =>
    rw [Images.launched_notMovedIn hnone]
    exact .keeps (.of_same rfl rfl)
  | loadSnapshot => exact memStep_loadSnapshot
  | tidy hsnapshot =>
    rcases hsnapshot with rfl | ⟨-, -, -, rfl⟩
    · exact .keeps (.of_same rfl rfl)
    · exact .keeps ⟨by rintro ⟨⟩, id, id⟩
  | moveBack hok hroot hmoved =>
    exact memStep_moveBack (hfiles _ (.head _)) hok hroot hmoved
  | notMovedBack hnone =>
    rw [Images.launched_notMovedBack hnone]
    exact .keeps (.of_same rfl rfl)
  | kill => exact .keeps (.of_kill _)
  | undo => exact .keeps .of_undo
  | fails hkind hfailure | failsToWake hkind hfailure => exact memStep_of_failure hfailure
  | _ => exact .keeps (.of_same rfl rfl)

/-- What a supervisor's effect does to memory files and their images. -/
inductive Vm.MemStep (vm : Vm) (name : Str) (view later : View) (images : Images) : Images → Prop
  | keeps (hless : view.Fewer later) : Vm.MemStep vm name view later images images
  | writes (hparked : later.hasParked = view.hasParked)
      (hwake : later.hasJailFile .wakeMem = view.hasJailFile .wakeMem) :
      Vm.MemStep vm name view later images (images.write (.park (hostId vm.vmAddress)))
  | movesOut (hmoved : view.moveOut .parkMem .mem = some later) :
      Vm.MemStep vm name view later images
        (images.rename (.park (hostId vm.vmAddress)) (.parked name))

theorem Images.supervised_moveOut_of_ne (h : item ≠ (.parkMem, .mem)) :
    images.supervised name outcome (.moveOut (item :: todo) failed) vm view = images := by
  obtain ⟨jailFile, file⟩ := item
  cases jailFile <;> cases file <;> first | rfl | exact absurd rfl h

theorem Images.supervised_notMovedOut (hnone : outcome = .ok → view.moveOut item.1 item.2 = none) :
    images.supervised name outcome (.moveOut (item :: todo) failed) vm view = images := by
  by_cases hmem : item = (.parkMem, .mem)
  · subst hmem
    simp only [supervised]
    rw [if_neg]
    rintro ⟨hok, hsome⟩
    rw [hnone hok] at hsome
    cases hsome
  · exact supervised_moveOut_of_ne hmem

theorem Vm.memStep_moveOut (hitem : item ∈ parkFiles)
    (hok : outcome = .ok) (hmoved : view.moveOut item.1 item.2 = some moved) :
    vm.MemStep name view moved images
      (images.supervised name outcome (.moveOut (item :: todo) failed) vm view) := by
  by_cases hmem : item = (.parkMem, .mem)
  · subst hmem
    simp only [Images.supervised]
    rw [if_pos ⟨hok, isSome_of_mem hmoved⟩]
    exact .movesOut hmoved
  · rw [Images.supervised_moveOut_of_ne hmem]
    have hsnd : item.2 ≠ .mem := by
      simp only [parkFiles, mem_cons, not_mem_nil, or_false] at hitem
      rcases hitem with rfl | rfl | rfl <;> simp_all
    exact .keeps (.of_moveOut hsnd hmoved)

/-- A failed snapshot's files go. -/
theorem View.Fewer.of_noSnapshot : view.Fewer { view with
      objects := (view.objects.withoutFile .parkVmstate).withoutFile .parkMem } := by
  refine .of_objects fun file hfile => ?_
  cases hjail : view.objects.jail with
  | none => simp [Objects.withoutFile, hjail] at hfile
  | some inJail =>
    simp only [Objects.withoutFile, hjail, map_some, any_some,
      contains_iff_mem, mem_filter] at hfile
    simpa [hasJailFile, hjail] using hfile.1.1

theorem Vm.memStep (hfiles : ∀ item ∈ doing.files, item ∈ parkFiles)
    (h : vm.supervise outcome reason doing view = some (doing', vm', view')) :
    vm.MemStep name view view' images (images.supervised name outcome doing vm view) := by
  cases effect_of_supervise h with
  | makeDir | noDir =>
    refine .keeps ⟨?_, id, id⟩
    cases outcome <;> cases hsnapshot : view.snapshot <;>
      simp [View.hasParked, Outcome.applied, hsnapshot]
  | snapshot hok =>
    simp only [Images.supervised]
    rw [if_pos hok]
    refine .writes rfl ?_
    cases hjail : view.objects.jail <;> simp [View.hasJailFile, Objects.withFile, hjail]
  | noSnapshot hfailed =>
    simp only [Images.supervised]
    rw [if_neg hfailed]
    exact .keeps .of_noSnapshot
  | parkKill | kill => exact .keeps (.of_kill _)
  | moveOut hok hmoved => exact memStep_moveOut (hfiles _ (.head _)) hok hmoved
  | notMovedOut hnone =>
    rw [Images.supervised_notMovedOut hnone]
    exact .keeps (.of_same rfl rfl)
  | dropDir hsnapshot =>
    rcases hsnapshot with ⟨-, rfl⟩ | ⟨-, rfl⟩ | ⟨-, rfl⟩
    · exact .keeps ⟨by rintro ⟨⟩, id, id⟩
    · exact .keeps ⟨by rintro ⟨⟩, id, id⟩
    · exact .keeps (.of_same rfl rfl)
  | undo => exact .keeps .of_undo
  | _ => exact .keeps (.of_same rfl rfl)

/-- A supervisor's renames are of the files that a park takes. -/
theorem Vm.files_of_supervise (hfiles : ∀ item ∈ doing.files, item ∈ parkFiles)
    (h : vm.supervise outcome reason doing view = some (doing', vm', view')) :
    ∀ item ∈ doing'.files, item ∈ parkFiles := by
  cases effect_of_supervise h with
  | parkKill => exact fun item hitem => hitem
  | moveOut | notMovedOut => exact fun other hother => hfiles other (.tail _ hother)
  | @dropDir lost => cases lost <;> exact forall_mem_nil _
  | _ => exact forall_mem_nil _

end

end Cirrocumulus.Node
