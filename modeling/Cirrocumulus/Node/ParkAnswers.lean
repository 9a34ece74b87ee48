/-
# Parks are all or nothing

Whatever requests a supervisor is sent, however Firecracker and the filesystem answer it
and whenever its VMM ends, each park it takes is answered once. Only the last can be
answered `Ok`, and then the VMM is gone and the snapshot complete; any other leaves no
directory behind, and if its VM goes on, the VM runs as if it had not been asked.

The invariant says for each place the supervisor can be at what it owes the park at hand
and what that park has left of the VM. The parks before it are settled and stay so.
-/

import Cirrocumulus.Lib.Runs
import Cirrocumulus.Node.Supervisor

namespace Cirrocumulus.Node

open Lib

variable {into : Str} {doing : ParkPc}

namespace Supervisor

variable {γ : Type}

/-! ## What a park comes to -/

/-- All three files of a snapshot are in a directory. -/
def HoldsSnapshot (files : Files Place Str γ) (into : Str) : Prop :=
  ∀ file : SnapshotFile, (files.get (.parked into) file.name).isSome

/-- The guest runs, as far as its VMM does, and its rootfs is in the jail. -/
structure Unharmed (vmm : Vmm) (files : Files Place Str γ) : Prop where
  running : vmm.paused = false
  rootfs : (files.get .jail JailFile.rootfs.name).isSome

/-- Right after the answer the VM is there, and the supervisor waits for what comes next. -/
def Answer.KeepsRunning (answer : Answer γ) : Prop :=
  answer.vmm.ended = none ∧ (answer.pc = .waiting ∨ answer.pc = .stopping)

/-- An error, and what it left behind. -/
structure Refusal (park : ParkTaken γ) (answer : Answer γ) : Prop where
  error : answer.ok = false
  noDir : park.before.hasDir (.parked park.into) = false →
    answer.files.hasDir (.parked park.into) = false
  unharmed : answer.KeepsRunning → Unharmed answer.vmm answer.files

/-- The park was answered once, with an error. -/
def ParkTaken.Refused (park : ParkTaken γ) : Prop :=
  ∃ answer, park.answers = [answer] ∧ Refusal park answer

/-- The park was answered once, with `Ok`. -/
def ParkTaken.Accepted (park : ParkTaken γ) : Prop :=
  ∃ answer, park.answers = [answer] ∧ answer.ok = true

theorem ParkTaken.Refused.not_accepted {park : ParkTaken γ} (h : park.Refused) :
    ¬park.Accepted := by
  obtain ⟨refusal, hanswers, hrefusal⟩ := h
  rintro ⟨answer, hanswers', hok⟩
  cases hanswers.symm.trans hanswers'
  cases hrefusal.error.symm.trans hok

/-! ## What holds at each place -/

/-- What a park has left of the VM and of its directory. -/
def ParkPc.Fits (s : Supervisor γ) (into : Str) : ParkPc → Prop
  | .creating | .pausing | .removing false => Unharmed s.vmm s.files
  | .snapshotting | .resuming => (s.files.get .jail JailFile.rootfs.name).isSome
  | .killing | .removing true => True
  | .moving => s.vmm.killed = true ∧ s.vmm.ended.isSome
  | .answering .ok => (s.vmm.killed = true ∧ s.vmm.ended.isSome) ∧ HoldsSnapshot s.files into
  | .answering .resumed =>
    Unharmed s.vmm s.files ∧ s.files.hasDir (.parked into) = false
  | .answering .lost => s.files.hasDir (.parked into) = false

/-- What a supervisor has made of the parks it took. -/
def Pc.Fits (s : Supervisor γ) : Pc → Prop
  | .waiting | .asking | .stopping =>
    (∀ park ∈ s.parks, park.Refused) ∧ Unharmed s.vmm s.files
  | .parking into doing =>
    ∃ before rest, s.parks = ⟨into, before, []⟩ :: rest ∧ (∀ park ∈ rest, park.Refused) ∧
      doing.Fits s into
  | .returned .parked =>
    ∃ park rest, s.parks = park :: rest ∧ park.Accepted ∧ (∀ park ∈ rest, park.Refused) ∧
      (s.vmm.killed = true ∧ s.vmm.ended.isSome) ∧ HoldsSnapshot s.files park.into
  | .killing | .returned _ => ∀ park ∈ s.parks, park.Refused

variable {s s' : Supervisor γ}

/-- What the VMM does by itself is no matter to any of it. -/
theorem Pc.Fits.of_vmm {pc : Pc} {vmm} (hpaused : vmm.paused = s.vmm.paused)
    (hkilled : vmm.killed = s.vmm.killed) (hended : s.vmm.ended.isSome → vmm.ended.isSome)
    (h : pc.Fits s) : pc.Fits { s with vmm := vmm } := by
  have hunharmed (h : Unharmed s.vmm s.files) : Unharmed vmm s.files :=
    ⟨hpaused.trans h.running, h.rootfs⟩
  have hgone (h : s.vmm.killed ∧ s.vmm.ended.isSome) :
      vmm.killed ∧ vmm.ended.isSome :=
    ⟨hkilled.trans h.1, hended h.2⟩
  cases pc with
  | waiting | asking | stopping => exact ⟨h.1, hunharmed h.2⟩
  | killing => exact h
  | returned reason =>
    cases reason with
    | parked =>
      obtain ⟨park, rest, hparks, haccepted, hrest, hgone', hholds⟩ := h
      exact ⟨park, rest, hparks, haccepted, hrest, hgone hgone', hholds⟩
    | _ => exact h
  | parking into doing =>
    obtain ⟨before, rest, hparks, hrest, hfits⟩ := h
    refine ⟨before, rest, hparks, hrest, ?_⟩
    match doing with
    | .creating | .pausing | .removing false => exact hunharmed hfits
    | .snapshotting | .resuming | .killing | .removing true => exact hfits
    | .moving => exact hgone hfits
    | .answering .ok => exact ⟨hgone hfits.1, hfits.2⟩
    | .answering .resumed => exact ⟨hunharmed hfits.1, hfits.2⟩
    | .answering .lost => exact hfits

theorem vmmNaturalEnd_ne_parked (vmm : Vmm) : vmmNaturalEnd vmm ≠ .parked := by
  unfold vmmNaturalEnd naturalEnd
  split
  · nofun
  · split
    · nofun
    · split <;> nofun

theorem gracefulEnd_ne_parked (vmm : Vmm) : gracefulEnd vmm ≠ .parked := by
  unfold gracefulEnd
  split <;> nofun

/-- A VMM that ended by itself is recorded with the parks as they are. -/
theorem Pc.Fits.returned {reason} (hreason : reason ≠ .parked)
    (h : ∀ park ∈ s.parks, park.Refused) : (Pc.returned reason).Fits s := by
  cases reason with
  | parked => exact absurd rfl hreason
  | _ => exact h

/-! ## The files -/

theorem nodup_renamesOut_name (allowed : SnapshotFile → Bool) :
    ((renamesOut allowed).map Rename.name).Nodup := by
  have h : (parkFiles.map fun file => file.1.name).Nodup := by decide
  simpa [renamesOut, Function.comp_def] using h

theorem nodup_renamesOut_newName (allowed : SnapshotFile → Bool) :
    ((renamesOut allowed).map Rename.newName).Nodup := by
  have h : (parkFiles.map fun file => file.2.name).Nodup := by decide
  simpa [renamesOut, Function.comp_def] using h

/-- Renames that all took place leave a whole snapshot. -/
theorem holdsSnapshot_of_moved {files : Files Place Str γ} {allowed}
    (h : (files.moveFiles .jail (.parked into) (renamesOut allowed)).2) :
    HoldsSnapshot (files.moveFiles .jail (.parked into) (renamesOut allowed)).1 into := by
  intro file
  have hdirs : Place.jail ≠ .parked into := nofun
  obtain ⟨jailed, hfile⟩ : ∃ jailed, (jailed, file) ∈ parkFiles := by
    cases file
    · exact ⟨.parkVmstate, by decide⟩
    · exact ⟨.parkMem, by decide⟩
    · exact ⟨.rootfs, by decide⟩
  have hitem : (⟨jailed.name, file.name, allowed file⟩ : Rename Str) ∈ renamesOut allowed :=
    List.mem_map.mpr ⟨(jailed, file), hfile, rfl⟩
  exact Files.get_moveFiles_of_ok hdirs (nodup_renamesOut_name allowed)
    (nodup_renamesOut_newName allowed) h hitem

/-- The files a park writes are not the rootfs. -/
theorem get_parkSnapshot_rootfs (files : Files Place Str γ) (vmstate mem : Option γ) :
    (parkSnapshot files vmstate mem).get .jail JailFile.rootfs.name =
      files.get .jail JailFile.rootfs.name := by
  unfold parkSnapshot
  rw [Files.get_put_of_ne, Files.get_put_of_ne]
  · exact fun h => absurd h.2 (by decide)
  · exact fun h => absurd h.2 (by decide)

/-! ## Steps and runs -/

theorem parks_answer {park rest} (h : s.parks = park :: rest) (ok : Bool) (pc : Pc) :
    (s.answer ok pc).parks =
      { park with answers := ⟨ok, pc, s.vmm, s.files⟩ :: park.answers } :: rest := by
  simp only [answer, h]

/-- A park that ends in an error is settled by its answer. -/
theorem refused_answer {before rest pc}
    (hparks : s.parks = ⟨into, before, []⟩ :: rest) (hrest : ∀ park ∈ rest, park.Refused)
    (hdir : before.hasDir (.parked into) = false → s.files.hasDir (.parked into) = false)
    (hunharmed : pc = .waiting ∨ pc = .stopping → Unharmed s.vmm s.files) :
    ∀ park ∈ (s.answer false pc).parks, park.Refused := by
  rw [parks_answer hparks]
  intro park hpark
  rcases List.mem_cons.mp hpark with rfl | hpark
  · exact ⟨_, rfl, rfl, hdir, fun hkeeps => hunharmed hkeeps.2⟩
  · exact hrest park hpark

/-- A park that goes on keeps its place among the parks. -/
theorem Pc.Fits.goesOn {doing doing' vmm files} (h : s.pc.Fits s)
    (hpc : s.pc = .parking into doing) (hfits : doing.Fits s into →
      doing'.Fits { s with pc := .parking into doing', vmm, files } into) :
    (Pc.parking into doing').Fits { s with pc := .parking into doing', vmm, files } := by
  rw [hpc] at h
  obtain ⟨before, rest, hparks, hrest, hdoing⟩ := h
  exact ⟨before, rest, hparks, hrest, hfits hdoing⟩

theorem Pc.fits_step {event : Event γ} (h : s.pc.Fits s)
    (hstep : s.step event = some s') : s'.pc.Fits s' := by
  cases move_of_step hstep with
  | prints hup => exact h.of_vmm rfl rfl id
  | ends hup => exact h.of_vmm rfl rfl fun _ => rfl
  | notices hpc | askedEnded hpc =>
    rw [hpc] at h
    exact Pc.Fits.returned (vmmNaturalEnd_ne_parked s.vmm) h.1
  | noticesStop hpc hended =>
    rw [hpc] at h
    exact Pc.Fits.returned (gracefulEnd_ne_parked s.vmm) h.1
  | takesPark hpc =>
    rw [hpc] at h
    exact ⟨_, _, rfl, h.1, h.2⟩
  | takesGraceful hpc | asked hpc | kills hpc =>
    rw [hpc] at h
    exact h
  | refusesPark hpc =>
    rw [hpc] at h
    exact ⟨refused_answer rfl h.1 id fun _ => h.2, h.2⟩
  | keepsStopping hpc => exact h
  | givesUp hpc =>
    rcases hpc with hpc | hpc <;> rw [hpc] at h
    · exact h.1
    · exact h.1
  | askedInVain hpc hup =>
    rw [hpc] at h
    exact h.1
  | created hpc =>
    exact h.goesOn hpc fun hfits =>
      ⟨hfits.running, (Files.get_createDir s.files).symm ▸ hfits.rootfs⟩
  | notPaused hpc hdoing => rcases hdoing with rfl | rfl <;> exact h.goesOn hpc id
  | paused hpc hup => exact h.goesOn hpc fun hfits => hfits.rootfs
  | resumed hpc hup => exact h.goesOn hpc fun hfits => ⟨rfl, hfits⟩
  | notResumed hpc | snapshot hpc | notMoved hpc => exact h.goesOn hpc fun _ => trivial
  | noSnapshot hpc =>
    refine h.goesOn hpc fun hfits => ?_
    show ((parkSnapshot s.files none none).get .jail JailFile.rootfs.name).isSome
    rw [get_parkSnapshot_rootfs]
    exact hfits
  | moved hpc hmoved => exact h.goesOn hpc fun hfits => ⟨hfits, holdsSnapshot_of_moved hmoved⟩
  | killsParked hpc => exact h.goesOn hpc fun _ => ⟨rfl, rfl⟩
  | @removes into lost hpc =>
    refine h.goesOn hpc fun hfits => ?_
    cases lost with
    | true => exact Files.hasDir_removeDir_self s.files
    | false =>
      refine ⟨⟨hfits.running, ?_⟩, Files.hasDir_removeDir_self s.files⟩
      have hne : Place.jail ≠ .parked into := nofun
      exact (Files.get_removeDir_of_ne s.files hne).symm ▸ hfits.rootfs
  | answersOk hpc =>
    rw [hpc] at h
    obtain ⟨before, rest, hparks, hrest, hgone, hholds⟩ := h
    exact ⟨_, rest, parks_answer hparks _ _, ⟨_, rfl, rfl⟩, hrest, hgone, hholds⟩
  | answersResumed hpc =>
    rw [hpc] at h
    obtain ⟨before, rest, hparks, hrest, hunharmed, hdir⟩ := h
    exact ⟨refused_answer hparks hrest (fun _ => hdir) fun _ => hunharmed, hunharmed⟩
  | answersLost hpc =>
    rw [hpc] at h
    obtain ⟨before, rest, hparks, hrest, hdir⟩ := h
    exact refused_answer hparks hrest (fun _ => hdir) (by rintro (h | h) <;> cases h)

theorem Pc.fits_of_run {start : Supervisor γ} {schedule}
    (hstart : start.Started) (hrun : run step start schedule = some s) : s.pc.Fits s := by
  apply run_preserves_all Pc.fits_step _ hrun
  rw [hstart.waiting]
  exact ⟨by rw [hstart.parks]; nofun, hstart.running, hstart.rootfs⟩

/-- Of the parks a supervisor took only the newest can be anything but refused. -/
theorem Pc.Fits.parks (h : s.pc.Fits s) : (∀ park ∈ s.parks.tail, park.Refused) ∧
      ∀ park, s.parks.head? = some park →
        park.Refused ∨ (park.Accepted ∧ s.pc = .returned .parked) ∨
          park.answers = [] ∧ ∃ doing, s.pc = .parking park.into doing := by
  by_cases hall : ∀ park ∈ s.parks, park.Refused
  · exact ⟨fun park hpark => hall park (List.mem_of_mem_tail hpark),
      fun park hpark => .inl (hall park (List.mem_of_mem_head? hpark))⟩
  cases hpc : s.pc with
  | waiting | asking | stopping =>
    rw [hpc] at h
    exact absurd h.1 hall
  | killing =>
    rw [hpc] at h
    exact absurd h hall
  | parking into doing =>
    rw [hpc] at h
    obtain ⟨before, rest, hparks, hrest, -⟩ := h
    rw [hparks]
    refine ⟨hrest, fun park hpark => ?_⟩
    cases hpark
    exact .inr (.inr ⟨rfl, doing, rfl⟩)
  | returned reason =>
    rw [hpc] at h
    cases reason with
    | parked =>
      obtain ⟨accepted, rest, hparks, haccepted, hrest, -⟩ := h
      rw [hparks]
      refine ⟨hrest, fun park hpark => ?_⟩
      cases hpark
      exact .inr (.inl ⟨haccepted, rfl⟩)
    | _ => exact absurd h hall

/-- A supervisor returns `Parked` just if the last park it took was answered `Ok`, and then
its VMM is gone and the park's directory holds the snapshot. Every other park it took, but
for one it is still at, was answered once and with an error that left no new directory,
and if the VM goes on, a VM that runs on its rootfs. -/
theorem park_all_or_nothing {start : Supervisor γ} {schedule : List (Event γ)}
    (hstart : start.Started) (hrun : run step start schedule = some s) :
    (s.pc = .returned .parked ↔ ∃ park, s.parks.head? = some park ∧ park.Accepted) ∧
      (∀ park, s.pc = .returned .parked → s.parks.head? = some park →
        (s.vmm.killed = true ∧ s.vmm.ended.isSome) ∧ HoldsSnapshot s.files park.into) ∧
      (∀ park ∈ s.parks.tail, park.Refused) ∧
      ∀ park, s.parks.head? = some park →
        park.Refused ∨ (park.Accepted ∧ s.pc = .returned .parked) ∨
          park.answers = [] ∧ ∃ doing, s.pc = .parking park.into doing := by
  have hfits := Pc.fits_of_run hstart hrun
  obtain ⟨htail, hhead⟩ := hfits.parks
  refine ⟨⟨fun hpc => ?_, ?_⟩, fun park hpc hpark => ?_, htail, hhead⟩
  · rw [hpc] at hfits
    obtain ⟨park, rest, hparks, haccepted, -⟩ := hfits
    exact ⟨park, by rw [hparks]; rfl, haccepted⟩
  · rintro ⟨park, hpark, haccepted⟩
    rcases hhead park hpark with hrefused | ⟨-, hpc⟩ | ⟨hanswers, -⟩
    · exact absurd haccepted hrefused.not_accepted
    · exact hpc
    · obtain ⟨answer, hanswer, -⟩ := haccepted
      cases hanswers.symm.trans hanswer
  · rw [hpc] at hfits
    obtain ⟨accepted, rest, hparks, -, -, hgone, hholds⟩ := hfits
    rw [hparks] at hpark
    cases hpark
    exact ⟨hgone, hholds⟩

/-- A VM with nothing on its console and a rootfs in its jail. -/
def sampleVm : Supervisor Nat where
  pc := .waiting
  vmm := ⟨false, none, false, false, [], ⟨0, 0, 0, 0, 0, 0⟩⟩
  files := ⟨fun
    | .jail => some fun name => if name = JailFile.rootfs.name then some 3 else none
    | .parked _ => none⟩
  parks := []

/-- A park whose snapshot fails, and one that goes through. -/
def twoParks : List (Event Nat) :=
  [.takes (some (.park "web")), .call true, .call true, .snapshots none, .call true,
    .proceeds, .proceeds,
    .takes (some (.park "web")), .call true, .call true, .snapshots (some (1, 2)),
    .proceeds, .renames fun _ => true, .proceeds]

theorem second_park_keeps_snapshot :
    ∃ s, run step sampleVm twoParks = some s ∧ s.pc = .returned .parked ∧
      (∀ park ∈ s.parks.tail, park.Refused) ∧
      ∀ park, s.parks.head? = some park → HoldsSnapshot s.files park.into := by
  have hstart : sampleVm.Started := ⟨rfl, rfl, by decide, rfl⟩
  have hpc : (run step sampleVm twoParks).map (·.pc) = some (.returned .parked) := by decide
  obtain ⟨s, hrun, hparked⟩ := Option.map_eq_some_iff.mp hpc
  obtain ⟨-, hholds, htail, -⟩ := park_all_or_nothing hstart hrun
  exact ⟨s, hrun, hparked, htail, fun park hpark => (hholds park hparked hpark).2⟩

/-! ## No park is left unanswered -/

/-- How many steps a park is from its answer, at most. -/
def ParkPc.rank : ParkPc → Nat
  | .creating => 7
  | .pausing => 6
  | .snapshotting => 5
  | .killing => 4
  | .resuming => 3
  | .moving => 3
  | .removing _ => 2
  | .answering _ => 1

/-- What the VMM does by itself, without the supervisor. -/
def Event.own : Event γ → Bool
  | .prints _ | .ends _ _ => false
  | _ => true

/-- Each step of the supervisor brings the answer of its park closer, or is the answer. What the
VMM does by itself is no matter. -/
theorem answered_or_closer {event before rest}
    (hpc : s.pc = .parking into doing) (hparks : s.parks = ⟨into, before, []⟩ :: rest)
    (hstep : s.step event = some s') :
    (∃ answer, s'.parks = ⟨into, before, [answer]⟩ :: rest) ∨
      s'.parks = s.parks ∧ ∃ doing', s'.pc = .parking into doing' ∧
        doing'.rank + (if event.own then 1 else 0) ≤ doing.rank := by
  cases move_of_step hstep with
  | prints | ends => exact .inr ⟨rfl, doing, hpc, le_rfl⟩
  | notices h | noticesStop h | takesPark h | takesGraceful h | refusesPark h | keepsStopping h
  | asked h | askedInVain h | askedEnded h | kills h =>
    cases hpc.symm.trans h
  | givesUp h => rcases h with h | h <;> cases hpc.symm.trans h
  | notPaused h hdoing =>
    cases hpc.symm.trans h
    rcases hdoing with rfl | rfl <;> exact .inr ⟨rfl, _, rfl, by simp [ParkPc.rank, Event.own]⟩
  | created h | paused h | resumed h | notResumed h | snapshot h | noSnapshot h | moved h
  | notMoved h | killsParked h =>
    cases hpc.symm.trans h
    exact .inr ⟨rfl, _, rfl, by simp [ParkPc.rank, Event.own]⟩
  | removes h =>
    cases hpc.symm.trans h
    exact .inr ⟨rfl, _, rfl, le_rfl⟩
  | answersOk | answersResumed | answersLost => exact .inl ⟨_, parks_answer hparks _ _⟩

/-- A park never waits for anything but its own next step. -/
theorem park_enabled (hpc : s.pc = .parking into doing) :
    ∃ event, event.own ∧ (s.step event).isSome := by
  match doing with
  | .creating | .pausing | .resuming => exact ⟨.call false, rfl, by simp [step, called, hpc]⟩
  | .snapshotting => exact ⟨.snapshots none, rfl, by simp [step, hpc]⟩
  | .moving => exact ⟨.renames fun _ => false, rfl, by simp [step, hpc]⟩
  | .killing | .removing _ | .answering .ok | .answering .resumed | .answering .lost =>
    exact ⟨.proceeds, rfl, by simp [step, proceed, hpc]⟩

/-- Any run in which the supervisor makes as many steps as the park can have left gets to
the park's answer. -/
theorem answered_of_rank {target : Supervisor γ} {schedule before rest}
    (hpc : s.pc = .parking into doing) (hparks : s.parks = ⟨into, before, []⟩ :: rest)
    (hrun : run step s schedule = some target) (henough : doing.rank ≤ schedule.countP Event.own) :
    ∃ first second middle answer, schedule = first ++ second ∧ run step s first = some middle ∧
      middle.parks = ⟨into, before, [answer]⟩ :: rest := by
  induction schedule generalizing s doing with
  | nil =>
    have hpos : 0 < doing.rank := by cases doing <;> exact Nat.succ_pos _
    exact absurd henough (Nat.not_le.mpr hpos)
  | cons event later ih =>
    obtain ⟨next, hstep, hlater⟩ := run_cons_eq_some.mp hrun
    rw [List.countP_cons] at henough
    rcases answered_or_closer hpc hparks hstep with ⟨answer, hanswer⟩ | ⟨hsame, doing', hpc', hle⟩
    · exact ⟨[event], later, next, answer, rfl, run_cons_eq_some.mpr ⟨next, hstep, rfl⟩, hanswer⟩
    · obtain ⟨first, second, middle, answer, rfl, hfirst, hanswer⟩ :=
        ih hpc' (hsame.trans hparks) hlater (by omega)
      exact ⟨event :: first, second, middle, answer, rfl,
        run_cons_eq_some.mpr ⟨next, hstep, hfirst⟩, hanswer⟩

/-- A park never waits for anything but the supervisor's next step, and after as many of them as
it can have left it has been answered, once, whatever the VMM does meanwhile. -/
theorem park_answered {start target : Supervisor γ} {earlier schedule}
    (hstart : start.Started) (hearlier : run step start earlier = some s)
    (hpc : s.pc = .parking into doing) (hrun : run step s schedule = some target)
    (henough : doing.rank ≤ schedule.countP Event.own) :
    (∃ event, event.own = true ∧ (s.step event).isSome) ∧
      ∃ before rest first second middle answer, s.parks = ⟨into, before, []⟩ :: rest ∧
        schedule = first ++ second ∧ run step s first = some middle ∧
        middle.parks = ⟨into, before, [answer]⟩ :: rest := by
  have hfits := Pc.fits_of_run hstart hearlier
  rw [hpc] at hfits
  obtain ⟨before, rest, hparks, -⟩ := hfits
  exact ⟨park_enabled hpc, before, rest, by
    simpa only [hparks, true_and] using answered_of_rank hpc hparks hrun henough⟩

theorem first_park_answered :
    ∃ s first middle park, run step sampleVm (twoParks.take 1) = some s ∧
      run step s first = some middle ∧ middle.parks = [park] ∧ park.answers.length = 1 := by
  obtain ⟨-, before, rest, first, second, middle, answer, hparks, -, hfirst, hanswer⟩ :=
    park_answered ⟨rfl, rfl, by decide, rfl⟩
      (rfl : run step sampleVm (twoParks.take 1) = some _) rfl
      (rfl : run step _ (twoParks.drop 1) = some _) (by decide)
  cases hparks
  exact ⟨_, first, middle, _, rfl, hfirst, hanswer, rfl⟩

end Supervisor

end Cirrocumulus.Node
