/-
# A wake that fails, and the snapshot it was to load

A wake moves the three files of a parked VM's snapshot into the new VM's jail, under
other names, and a wake that fails moves them back. It does so from wherever the jail's
root was known to be when it failed, for all three files, whichever of them had moved:
a wake that never got as far as a jail has the empty path for its root, and the empty
path joined with a file's name is that name in the directory the agent runs in.
-/

import Cirrocumulus.Lib.Files
import Cirrocumulus.Node.Host

namespace Cirrocumulus.Node

open List
open Lib (Files Rename)

/-- The names of `SNAPSHOT_FILES`. -/
def SnapshotFile.name : SnapshotFile → Str
  | .vmstate => "vmstate"
  | .mem => "mem"
  | .rootfs => "rootfs.ext4"

/-- The names of `PARK_FILES` and `WAKE_FILES`. -/
def JailFile.name : JailFile → Str
  | .parkVmstate => "park.vmstate"
  | .parkMem => "park.mem"
  | .wakeVmstate => "wake.vmstate"
  | .wakeMem => "wake.mem"
  | .rootfs => "rootfs.ext4"

/-- The renames of a wake, `SNAPSHOT_FILES` to `WAKE_FILES`. -/
def renamesIn (allowed : SnapshotFile → Bool) : List (Rename Str) :=
  wakeFiles.map fun (jailed, kept) => ⟨kept.name, jailed.name, allowed kept⟩

/-- The renames of its rollback, `WAKE_FILES` to `SNAPSHOT_FILES`. -/
def renamesBack (allowed : SnapshotFile → Bool) : List (Rename Str) :=
  wakeFiles.map fun (jailed, kept) => ⟨jailed.name, kept.name, allowed kept⟩

/-- The directories a wake works in. -/
structure WakeDirs where
  snapshot : Str
  /-- The root of the new VM's jail. -/
  jailRoot : Str
  /-- The directory the agent runs in. -/
  working : Str
  jailRoot_ne_nil : jailRoot ≠ []
  apart : snapshot ≠ jailRoot

/-- How `host_steps` went. Of what it does only the jail matters here. -/
inductive HostSteps
  /-- `ip netns add` failed. -/
  | noNetns
  /-- A step behind it failed, before or after jailer made the jail. -/
  | failed (jailed : Bool)
  /-- Firecracker's API socket is there. -/
  | done

/-- How `load_snapshot` went. -/
inductive Load (γ : Type)
  | loaded
  | refused
  /-- The call failed, but Firecracker had resumed the guest, which wrote to its rootfs. -/
  | ran (rootfs : γ)

/-- What the host makes of one wake. -/
structure WakeRun (γ : Type) where
  host : HostSteps
  moveIn : SnapshotFile → Bool
  chown : JailFile → Bool
  load : Load γ
  moveBack : SnapshotFile → Bool
  /-- Teardown could remove the jail. -/
  removed : Bool

/-- A VM being woken, as far as its files go. -/
structure Waking (γ : Type) where
  files : Files Str Str γ
  /-- `jail_root`, which is the empty path in `Vm::empty`. -/
  jailRoot : Str

variable {γ : Type}

/-- The directory that `path.join(name)` is a file of: a name joined to the empty path is
looked up in the working directory. -/
def WakeDirs.dirOf (dirs : WakeDirs) (path : Str) : Str :=
  if path = [] then dirs.working else path

def hostSteps (dirs : WakeDirs) (files : Files Str Str γ) : HostSteps → Waking γ × Bool
  | .noNetns => (⟨files, []⟩, false)
  | .failed jailed =>
    (⟨if jailed then files.createDir dirs.jailRoot else files, dirs.jailRoot⟩, false)
  | .done => (⟨files.createDir dirs.jailRoot, dirs.jailRoot⟩, true)

/-- The files after a call of `load_snapshot`. -/
def Load.files (load : Load γ) (dirs : WakeDirs) (files : Files Str Str γ) : Files Str Str γ :=
  match load with
  | .loaded | .refused => files
  | .ran rootfs => files.put dirs.jailRoot JailFile.rootfs.name (some rootfs)

def wakeSteps (dirs : WakeDirs) (files : Files Str Str γ) (run : WakeRun γ) : Waking γ × Bool :=
  let (vm, up) := hostSteps dirs files run.host
  if up then
    let (files, moved) :=
      vm.files.moveFiles dirs.snapshot (dirs.dirOf vm.jailRoot) (renamesIn run.moveIn)
    if moved && wakeFiles.all fun (jailed, _) => run.chown jailed then
      ({ vm with files := run.load.files dirs files }, run.load matches .loaded)
    else ({ vm with files }, false)
  else (vm, false)

/-- `teardown`, which removes the jail if its removal was registered. -/
def Waking.teardown (vm : Waking γ) (dirs : WakeDirs) (removed : Bool) : Files Str Str γ :=
  if vm.jailRoot ≠ [] ∧ removed = true then vm.files.removeDir dirs.jailRoot else vm.files

/-- `Vm::wake`: the files afterwards, and whether the VM woke. -/
def wake (dirs : WakeDirs) (files : Files Str Str γ) (run : WakeRun γ) : Files Str Str γ × Bool :=
  let (vm, woken) := wakeSteps dirs files run
  if woken then (vm.files, true)
  else
    let (files, _) :=
      vm.files.moveFiles (dirs.dirOf vm.jailRoot) dirs.snapshot (renamesBack run.moveBack)
    (Waking.teardown { vm with files } dirs run.removed, false)

/-! ## What the rollback finds -/

section

variable (dirs : WakeDirs) (files : Files Str Str γ) (run : WakeRun γ)

/-- The files once the renames into the jail were tried. -/
def WakeRun.movedIn : Files Str Str γ :=
  ((files.createDir dirs.jailRoot).moveFiles dirs.snapshot dirs.jailRoot (renamesIn run.moveIn)).1

/-- The wake moved the file into the jail, if it came to that. -/
def WakeRun.enters (file : JailFile × SnapshotFile) : Bool :=
  run.moveIn file.2 && (files.get dirs.snapshot file.2.name).isSome

/-- `load_snapshot` is reached once the host steps are done. -/
def WakeRun.loads : Bool :=
  wakeFiles.all fun file => run.enters dirs files file && run.chown file.1

/-- What a call of `load_snapshot` leaves of a file in the jail. -/
def Load.leaves (load : Load γ) (file : JailFile) (content : Option γ) : Option γ :=
  match load, file with
  | .ran rootfs, .rootfs => some rootfs
  | _, _ => content

/-- The directory that the rollback takes files from. -/
def WakeRun.source : Str :=
  match run.host with
  | .noNetns => dirs.working
  | .failed _ | .done => dirs.jailRoot

/-- What the rollback finds there under a file's name. -/
def WakeRun.found (file : JailFile × SnapshotFile) : Option γ :=
  match run.host with
  | .noNetns => files.get dirs.working file.1.name
  | .failed _ => files.get dirs.jailRoot file.1.name
  | .done =>
    if run.enters dirs files file then
      if run.loads dirs files then run.load.leaves file.1 (files.get dirs.snapshot file.2.name)
      else files.get dirs.snapshot file.2.name
    else files.get dirs.jailRoot file.1.name

/-- The rollback finds nothing of the file, or what the snapshot held, and takes it from no
directory that is neither the jail's nor where the file already lies. -/
def WakeRun.Spares (file : JailFile × SnapshotFile) : Prop :=
  run.found dirs files file = none ∨
    run.found dirs files file = files.get dirs.snapshot file.2.name ∧
      (run.source dirs = dirs.jailRoot ∨
        run.source dirs = dirs.snapshot ∧ file.1.name = file.2.name)

end

variable {dirs : WakeDirs} {files : Files Str Str γ} {run : WakeRun γ}

theorem dirOf_jailRoot (dirs : WakeDirs) : dirs.dirOf dirs.jailRoot = dirs.jailRoot :=
  if_neg dirs.jailRoot_ne_nil

theorem nodup_renamesIn (allowed : SnapshotFile → Bool) :
    ((renamesIn allowed).map Rename.name).Nodup ∧ ((renamesIn allowed).map Rename.newName).Nodup :=
  (by decide : (wakeFiles.map fun file => file.2.name).Nodup ∧
    (wakeFiles.map fun file => file.1.name).Nodup)

theorem nodup_renamesBack (allowed : SnapshotFile → Bool) :
    ((renamesBack allowed).map Rename.name).Nodup ∧
      ((renamesBack allowed).map Rename.newName).Nodup :=
  (nodup_renamesIn allowed).symm

/-- What a wake that failed has left when its rollback begins. -/
structure RollsBack (dirs : WakeDirs) (files : Files Str Str γ) (run : WakeRun γ)
    (vm : Waking γ) : Prop where
  source : dirs.dirOf vm.jailRoot = run.source dirs
  hasDir : vm.files.hasDir dirs.snapshot = files.hasDir dirs.snapshot
  found : ∀ file ∈ wakeFiles,
    vm.files.get (run.source dirs) file.1.name = run.found dirs files file
  kept : ∀ file ∈ wakeFiles, run.found dirs files file = none →
    vm.files.get dirs.snapshot file.2.name = files.get dirs.snapshot file.2.name
  others : ∀ dir name, dir ≠ dirs.jailRoot →
    (dir = dirs.snapshot → name ∉ wakeFiles.map fun file => file.2.name) →
      vm.files.get dir name = files.get dir name
  same : run.source dirs = dirs.snapshot → vm.files = files

theorem moves_renamesIn (dirs : WakeDirs) (files : Files Str Str γ) (run : WakeRun γ) (file) :
    (files.createDir dirs.jailRoot).moves dirs.snapshot dirs.jailRoot
      ⟨file.2.name, file.1.name, run.moveIn file.2⟩ = run.enters dirs files file := by
  simp [Files.moves, WakeRun.enters]

/-- What moved into the jail, and what did not. -/
theorem get_movedIn (dirs : WakeDirs) (files : Files Str Str γ) (run : WakeRun γ) {file}
    (hfile : file ∈ wakeFiles) :
    (run.movedIn dirs files).get dirs.snapshot file.2.name =
        (if run.enters dirs files file then none else files.get dirs.snapshot file.2.name) ∧
      (run.movedIn dirs files).get dirs.jailRoot file.1.name =
        if run.enters dirs files file then files.get dirs.snapshot file.2.name
        else files.get dirs.jailRoot file.1.name := by
  have hitem : (⟨file.2.name, file.1.name, run.moveIn file.2⟩ : Rename Str) ∈
      renamesIn run.moveIn := mem_map.mpr ⟨file, hfile, rfl⟩
  have hget := (files.createDir dirs.jailRoot).get_moveFiles dirs.apart
    (nodup_renamesIn run.moveIn).1 (nodup_renamesIn run.moveIn).2 hitem
  simp only [moves_renamesIn, Files.get_createDir] at hget
  exact hget

theorem get_movedIn_of_ne {dir name} (hjail : dir ≠ dirs.jailRoot)
    (hname : dir = dirs.snapshot → name ∉ wakeFiles.map fun file => file.2.name) :
    (run.movedIn dirs files).get dir name = files.get dir name := by
  rw [WakeRun.movedIn, Files.get_moveFiles_of_ne _ hname fun h => absurd h hjail,
    Files.get_createDir]

theorem hasDir_load (load : Load γ) (dir : Str) :
    (load.files dirs files).hasDir dir = files.hasDir dir := by
  cases load <;> simp [Load.files]

theorem get_load (load : Load γ) {dir} (hdir : dir ≠ dirs.jailRoot) (name : Str) :
    (load.files dirs files).get dir name = files.get dir name := by
  cases load with
  | loaded | refused => rfl
  | ran rootfs => exact files.get_put_of_ne fun h => hdir h.1

theorem get_load_jail (load : Load γ) (hjail : files.hasDir dirs.jailRoot)
    {file} (hfile : file ∈ wakeFiles) :
    (load.files dirs files).get dirs.jailRoot file.1.name =
      load.leaves file.1 (files.get dirs.jailRoot file.1.name) := by
  cases load with
  | loaded | refused => rfl
  | ran rootfs =>
    by_cases hrootfs : file.1 = .rootfs
    · rw [Load.files, hrootfs, files.get_put_self hjail]
      rfl
    · have hname : file.1.name ≠ JailFile.rootfs.name := by
        revert hrootfs
        revert file
        decide
      rw [Load.files, files.get_put_of_ne fun h => hname h.2]
      unfold Load.leaves
      split
      · exact absurd ‹_› hrootfs
      · rfl

theorem loads_eq (dirs : WakeDirs) (files : Files Str Str γ) (run : WakeRun γ) :
    (((files.createDir dirs.jailRoot).moveFiles dirs.snapshot dirs.jailRoot
      (renamesIn run.moveIn)).2 && wakeFiles.all fun file => run.chown file.1) =
        run.loads dirs files := by
  rw [Bool.eq_iff_iff, Bool.and_eq_true, Files.moveFiles_ok dirs.apart (nodup_renamesIn _).1]
  simp only [renamesIn, forall_mem_map, moves_renamesIn, WakeRun.loads, all_eq_true,
    Bool.and_eq_true, ← forall₂_and]

/-- Once the host steps are done, the wake has moved some of the files into the jail, and the
guest may have run. -/
theorem wakeSteps_of_done (hhost : run.host = .done) :
    wakeSteps dirs files run =
      (⟨if run.loads dirs files then run.load.files dirs (run.movedIn dirs files)
        else run.movedIn dirs files, dirs.jailRoot⟩,
      run.loads dirs files && run.load matches .loaded) := by
  simp only [wakeSteps, hostSteps, hhost, dirOf_jailRoot, if_true, loads_eq]
  cases run.loads dirs files <;> rfl

theorem found_of_enters (hhost : run.host = .done) {file}
    (henters : run.enters dirs files file) : (run.found dirs files file).isSome := by
  have hheld : (files.get dirs.snapshot file.2.name).isSome := (Bool.and_eq_true_iff.mp henters).2
  simp only [WakeRun.found, hhost, henters, if_true]
  split
  · unfold Load.leaves
    split
    · rfl
    · exact hheld
  · exact hheld

theorem rollsBack_of_done (hhost : run.host = .done) :
    RollsBack dirs files run (wakeSteps dirs files run).1 := by
  have hsource : run.source dirs = dirs.jailRoot := by simp [WakeRun.source, hhost]
  have hdir : ∀ dir, (run.movedIn dirs files).hasDir dir =
      (files.createDir dirs.jailRoot).hasDir dir := Files.hasDir_moveFiles _ _
  rw [wakeSteps_of_done hhost]
  have hget {dir} (hjail : dir ≠ dirs.jailRoot) (name : Str) :
      (if run.loads dirs files then run.load.files dirs (run.movedIn dirs files)
        else run.movedIn dirs files).get dir name = (run.movedIn dirs files).get dir name := by
    split
    · exact get_load run.load hjail name
    · rfl
  refine ⟨by rw [hsource, dirOf_jailRoot], ?_, fun file hfile => ?_, fun file hfile hnone => ?_,
    fun dir name hjail hname => (hget hjail name).trans (get_movedIn_of_ne hjail hname),
    fun h => absurd (hsource.symm.trans h).symm dirs.apart⟩
  · split
    · rw [hasDir_load, hdir, files.hasDir_createDir_of_ne dirs.apart]
    · rw [hdir, files.hasDir_createDir_of_ne dirs.apart]
  · simp only [hsource, WakeRun.found, hhost]
    split
    · rename_i hloads
      have henters : run.enters dirs files file :=
        (Bool.and_eq_true_iff.mp (all_eq_true.mp hloads file hfile)).1
      rw [get_load_jail run.load (by simp [hdir]) hfile, (get_movedIn dirs files run hfile).2,
        if_pos henters, if_pos henters]
    · exact (get_movedIn dirs files run hfile).2
  · have henters : run.enters dirs files file = false := by
      rw [Bool.eq_false_iff]
      intro henters
      have hfound := found_of_enters hhost henters
      rw [hnone] at hfound
      cases hfound
    rw [hget dirs.apart, (get_movedIn dirs files run hfile).1, henters]
    rfl

/-- Where the wake stopped, there is nothing for the rollback but what lay there before. -/
theorem rollsBack (dirs : WakeDirs) (files : Files Str Str γ) (run : WakeRun γ) :
    RollsBack dirs files run (wakeSteps dirs files run).1 := by
  cases hhost : run.host with
  | noNetns =>
    have hsteps : (wakeSteps dirs files run).1 = ⟨files, []⟩ := by
      simp [wakeSteps, hostSteps, hhost]
    have hsource : run.source dirs = dirs.working := by simp [WakeRun.source, hhost]
    rw [hsteps]
    exact ⟨by simp [WakeDirs.dirOf, hsource], rfl,
      fun _ _ => by simp [WakeRun.found, hhost, hsource],
      fun _ _ _ => rfl, fun _ _ _ _ => rfl, fun _ => rfl⟩
  | failed jailed =>
    have hsteps : (wakeSteps dirs files run).1 =
        ⟨if jailed then files.createDir dirs.jailRoot else files, dirs.jailRoot⟩ := by
      simp [wakeSteps, hostSteps, hhost]
    have hsource : run.source dirs = dirs.jailRoot := by simp [WakeRun.source, hhost]
    have hget (dir name) : (if jailed then files.createDir dirs.jailRoot else files).get dir name =
        files.get dir name := by
      cases jailed <;> simp
    have hdir : (if jailed then files.createDir dirs.jailRoot else files).hasDir dirs.snapshot =
        files.hasDir dirs.snapshot := by
      cases jailed
      · rfl
      · exact files.hasDir_createDir_of_ne dirs.apart
    rw [hsteps]
    exact ⟨by rw [hsource, dirOf_jailRoot], hdir,
      fun _ _ => by rw [hget, WakeRun.found, hhost, hsource], fun _ _ _ => hget _ _,
      fun _ _ _ _ => hget _ _, fun h => absurd (hsource.symm.trans h).symm dirs.apart⟩
  | done => exact rollsBack_of_done hhost

/-! ## What the rollback leaves -/

/-- Two filesystems that agree on every file outside the VM's jail. -/
def SameOutside (dirs : WakeDirs) (files files' : Files Str Str γ) : Prop :=
  ∀ dir, dir ≠ dirs.jailRoot → ∀ name, files'.get dir name = files.get dir name

theorem sameOutside_teardown {vm : Waking γ} (removed : Bool) :
    SameOutside dirs files (vm.teardown dirs removed) ↔ SameOutside dirs files vm.files := by
  unfold Waking.teardown
  split
  · refine forall₂_congr fun dir hdir => forall_congr' fun name => ?_
    rw [Files.get_removeDir_of_ne _ hdir]
  · rfl

theorem name_not_kept : ∀ file ∈ wakeFiles, file.1.name ≠ file.2.name →
    file.1.name ∉ wakeFiles.map fun file => file.2.name := by
  decide

section

variable {vm : Waking γ} {allowed : SnapshotFile → Bool} (h : RollsBack dirs files run vm)
  (hback : ∀ file, allowed file = true)
include h hback

section

variable (hdir : files.hasDir dirs.snapshot)
include hdir

theorem moves_renamesBack {file} (hfile : file ∈ wakeFiles) :
    vm.files.moves (run.source dirs) dirs.snapshot ⟨file.1.name, file.2.name, allowed file.2⟩ =
      (run.found dirs files file).isSome := by
  simp [Files.moves, hback, h.hasDir, hdir, h.found file hfile]

/-- What is found is moved over the snapshot's file. -/
theorem get_rollback (hsource : run.source dirs ≠ dirs.snapshot) {file} (hfile : file ∈ wakeFiles) :
    (vm.files.moveFiles (run.source dirs) dirs.snapshot (renamesBack allowed)).1.get
        dirs.snapshot file.2.name =
      (run.found dirs files file).or (files.get dirs.snapshot file.2.name) := by
  have hitem : (⟨file.1.name, file.2.name, allowed file.2⟩ : Rename Str) ∈ renamesBack allowed :=
    mem_map.mpr ⟨file, hfile, rfl⟩
  rw [(vm.files.get_moveFiles hsource (nodup_renamesBack allowed).1 (nodup_renamesBack allowed).2
    hitem).2, moves_renamesBack h hback hdir hfile, h.found file hfile]
  cases hfound : run.found dirs files file with
  | none => exact h.kept file hfile hfound
  | some content => rfl

/-- A file is gone from where it was found, unless that is its place. -/
theorem get_rollback_source {file} (hfile : file ∈ wakeFiles)
    (hkept : run.source dirs = dirs.snapshot →
      file.1.name ∉ wakeFiles.map fun file => file.2.name) :
    (vm.files.moveFiles (run.source dirs) dirs.snapshot (renamesBack allowed)).1.get
      (run.source dirs) file.1.name = none := by
  refine Files.get_moveFiles_source (h.hasDir.trans hdir) (fun item hitem => ?_) hkept ?_
  · obtain ⟨file, -, rfl⟩ := mem_map.mp hitem
    exact hback file.2
  · exact mem_map.mpr ⟨_, mem_map.mpr ⟨file, hfile, rfl⟩, rfl⟩

theorem spares_of_sameOutside (hsame : SameOutside dirs files
      (vm.files.moveFiles (run.source dirs) dirs.snapshot (renamesBack allowed)).1)
    {file} (hfile : file ∈ wakeFiles) : run.Spares dirs files file := by
  by_cases hfound : run.found dirs files file = none
  · exact .inl hfound
  have hplace : run.source dirs = dirs.jailRoot ∨
      run.source dirs = dirs.snapshot ∧ file.1.name = file.2.name := by
    by_contra hplace
    obtain ⟨hjail, hmoved⟩ := not_or.mp hplace
    have hkept : run.source dirs = dirs.snapshot →
        file.1.name ∉ wakeFiles.map fun file => file.2.name :=
      fun hsource => name_not_kept file hfile fun hname => hmoved ⟨hsource, hname⟩
    have hgone := get_rollback_source h hback hdir hfile hkept
    rw [hsame _ hjail, ← h.others _ _ hjail hkept, h.found file hfile] at hgone
    exact hfound hgone
  refine .inr ⟨?_, hplace⟩
  by_cases hsource : run.source dirs = dirs.snapshot
  · rcases hplace with hjail | ⟨-, hname⟩
    · exact absurd (hsource.symm.trans hjail) dirs.apart
    · rw [← h.found file hfile, hsource, h.same hsource, hname]
  · have hget := get_rollback h hback hdir hsource hfile
    rw [hsame _ dirs.apart] at hget
    obtain ⟨content, hcontent⟩ := Option.ne_none_iff_exists'.mp hfound
    rw [hget, hcontent, Option.some_or]

theorem sameOutside_of_spares (hspares : ∀ file ∈ wakeFiles, run.Spares dirs files file) :
    SameOutside dirs files
      (vm.files.moveFiles (run.source dirs) dirs.snapshot (renamesBack allowed)).1 := by
  intro dir hjail name
  by_cases hsource : run.source dirs = dirs.snapshot
  · rw [Files.moveFiles_of_still, h.same hsource]
    intro item hitem
    obtain ⟨file, hfile, rfl⟩ := mem_map.mp hitem
    rcases hspares file hfile with hfound | ⟨-, hplace⟩
    · left
      rw [moves_renamesBack h hback hdir hfile, hfound]
      rfl
    · rcases hplace with hjail | hstays
      · exact absurd (hsource.symm.trans hjail) dirs.apart
      · exact .inr hstays
  by_cases hkept : dir = dirs.snapshot ∧ name ∈ wakeFiles.map fun file => file.2.name
  · obtain ⟨rfl, hname⟩ := hkept
    obtain ⟨file, hfile, rfl⟩ := mem_map.mp hname
    rw [get_rollback h hback hdir hsource hfile]
    rcases hspares file hfile with hfound | ⟨hfound, -⟩
    · rw [hfound, Option.none_or]
    · rw [hfound, Option.or_self]
  have hother : dir = dirs.snapshot → name ∉ wakeFiles.map fun file => file.2.name :=
    fun hdir hname => hkept ⟨hdir, hname⟩
  by_cases hfrom : dir = run.source dirs ∧ name ∈ wakeFiles.map fun file => file.1.name
  · obtain ⟨rfl, hname⟩ := hfrom
    obtain ⟨file, hfile, rfl⟩ := mem_map.mp hname
    rw [get_rollback_source h hback hdir hfile hother, ← h.others _ _ hjail hother,
      h.found file hfile]
    rcases hspares file hfile with hfound | ⟨-, hplace⟩
    · exact hfound.symm
    · exact absurd hplace (not_or.mpr ⟨hjail, fun h => hsource h.1⟩)
  · rw [Files.get_moveFiles_of_ne _ (fun h hname => hfrom ⟨h, hname⟩) hother,
      h.others dir name hjail hother]

end

omit hback in
theorem sameOutside_of_no_snapshot (hdir : files.hasDir dirs.snapshot = false) :
    SameOutside dirs files
      (vm.files.moveFiles (run.source dirs) dirs.snapshot (renamesBack allowed)).1 := by
  rw [← h.hasDir] at hdir
  rw [Files.moveFiles_of_still fun item _ => .inl (by simp [Files.moves, hdir])]
  intro dir hjail name
  by_cases hsnapshot : dir = dirs.snapshot
  · rw [hsnapshot, Files.get_of_not_hasDir _ hdir, Files.get_of_not_hasDir _ (h.hasDir ▸ hdir)]
  · exact h.others dir name hjail fun hdir => absurd hdir hsnapshot

end

/-- A wake that fails, at whatever step and with whatever part of its snapshot moved, leaves
every file outside the jail as it was, the snapshot's first of all, exactly if the rollback
finds of each of the three files nothing or what the snapshot held, and takes it from the jail
or leaves it where it is. Without the snapshot's directory nothing is moved. -/
theorem failed_wake_restores_snapshot (dirs : WakeDirs) (files : Files Str Str γ)
    (run : WakeRun γ) (hfails : (wake dirs files run).2 = false)
    (hback : ∀ file, run.moveBack file = true) :
    ((∀ name, (wake dirs files run).1.get dirs.snapshot name = files.get dirs.snapshot name) ∧
      ∀ dir, dir ≠ dirs.snapshot → dir ≠ dirs.jailRoot → ∀ name,
        (wake dirs files run).1.get dir name = files.get dir name) ↔
      (files.hasDir dirs.snapshot = true → ∀ file ∈ wakeFiles, run.Spares dirs files file) := by
  have hrolls := rollsBack dirs files run
  have hsame : SameOutside dirs files (wake dirs files run).1 ↔
      (files.hasDir dirs.snapshot → ∀ file ∈ wakeFiles, run.Spares dirs files file) := by
    cases hwoken : (wakeSteps dirs files run).2 with
    | true => simp [wake, hwoken] at hfails
    | false =>
      simp only [wake, hwoken, Bool.false_eq_true, if_false, sameOutside_teardown, hrolls.source]
      cases hdir : files.hasDir dirs.snapshot with
      | true =>
        exact ⟨fun hsame _ file hfile => spares_of_sameOutside hrolls hback hdir hsame hfile,
          fun hspares => sameOutside_of_spares hrolls hback hdir (hspares rfl)⟩
      | false =>
        exact iff_of_true (sameOutside_of_no_snapshot hrolls hdir) (by rintro ⟨⟩)
  rw [← hsame]
  constructor
  · rintro ⟨hsnapshot, hothers⟩ dir hjail name
    by_cases hdir : dir = dirs.snapshot
    · rw [hdir, hsnapshot]
    · exact hothers dir hdir hjail name
  · exact fun h => ⟨h dirs.snapshot dirs.apart, fun dir _ hjail => h dir hjail⟩

/-! ## Two wakes of one VM -/

instance [DecidableEq γ] (file) : Decidable (run.Spares dirs files file) :=
  inferInstanceAs (Decidable (_ ∨ _))

/-- A parked VM, and an agent that runs in the root directory. -/
def sampleDirs : WakeDirs where
  snapshot := "/var/lib/cirro/parked/web"
  jailRoot := "/var/lib/cirro/jail/firecracker/cirro-0002/root"
  working := "/"
  jailRoot_ne_nil := by decide
  apart := by decide

/-- The parked VM's snapshot, a jail with a `wake.mem` that was left there, and a directory `/`
with a `rootfs.ext4`. -/
def sampleFiles : Files Str Str Nat where
  dirs dir :=
    if dir = sampleDirs.snapshot then
      some fun name =>
        if name = SnapshotFile.vmstate.name then some 1
        else if name = SnapshotFile.mem.name then some 2
        else if name = SnapshotFile.rootfs.name then some 3
        else none
    else if dir = sampleDirs.jailRoot then
      some fun name => if name = JailFile.wakeMem.name then some 8 else none
    else if dir = sampleDirs.working then
      some fun name => if name = SnapshotFile.rootfs.name then some 9 else none
    else none

/-- A wake whose renames all succeed, as far as it comes to them. -/
def sampleWake (host : HostSteps) (load : Load Nat) : WakeRun Nat where
  host := host
  moveIn := fun _ => true
  chown := fun _ => true
  load := load
  moveBack := fun _ => true
  removed := true

/-- Firecracker refuses the snapshot: it is in its directory again. -/
theorem refused_wake_restores_snapshot :
    (wake sampleDirs sampleFiles (sampleWake .done .refused)).2 = false ∧
      ∀ name, (wake sampleDirs sampleFiles (sampleWake .done .refused)).1.get
        sampleDirs.snapshot name = sampleFiles.get sampleDirs.snapshot name := by
  have hfails : (wake sampleDirs sampleFiles (sampleWake .done .refused)).2 = false := by decide
  have hrestored := failed_wake_restores_snapshot sampleDirs sampleFiles
    (sampleWake .done .refused) hfails fun _ => rfl
  exact ⟨hfails, (hrestored.mpr (by decide)).1⟩

/-- The namespace cannot be made, and the `rootfs.ext4` of the directory the agent runs in
takes the place of the snapshot's. -/
theorem failed_wake_takes_stray_rootfs :
    (wake sampleDirs sampleFiles (sampleWake .noNetns .loaded)).2 = false ∧
      (wake sampleDirs sampleFiles (sampleWake .noNetns .loaded)).1.get
          sampleDirs.snapshot SnapshotFile.rootfs.name = some 9 ∧
      sampleFiles.get sampleDirs.snapshot SnapshotFile.rootfs.name = some 3 ∧
      (wake sampleDirs sampleFiles (sampleWake .noNetns .loaded)).1.get
          sampleDirs.working SnapshotFile.rootfs.name = none := by
  decide

end Cirrocumulus.Node
