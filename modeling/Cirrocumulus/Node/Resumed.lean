/-
# No image is resumed twice

A wake renames a parked VM's memory into its jail and resumes it, and renames it back when
it fails. No image is resumed twice as long as whatever is renamed back, or resumed, was not
resumed before. Two things can break that: a load that takes effect and answers with an
error, after which the wake puts a resumed image back, and a jail in which an earlier wake
left its memory file, which a failing wake takes for its own.
-/

import Cirrocumulus.Node.Images
import Cirrocumulus.Node.Parked
import Cirrocumulus.Node.Sweep

namespace Cirrocumulus.Node

open Lib (Tokens)
open Lib List Option

variable {subnet : Subnet} {host later : Host} {up : AgentProcess} {node next : System}
  {event : NodeEvent} {images : Images} {task : Nat} {id : Str} {file : MemFile}

/-! ## What the tasks are about to do -/

/-- The tasks rename the files that a wake and a park rename. -/
def Standing.RenamesOwn : Standing → Prop
  | .launching _ _ pc _ => ∀ item ∈ pc.files, item ∈ wakeFiles
  | .running _ _ _ pc _ => ∀ item ∈ pc.files, item ∈ parkFiles
  | _ => True

theorem Standing.RenamesOwn.step {name s s'} (h : s.RenamesOwn)
    (hmove : NameMove node next name event s s') : s'.RenamesOwn := by
  cases hmove with
  | untouched => exact h
  | begun | adopted | handedOver => exact forall_mem_nil _
  | launchStep hname hstep =>
    intro item hitem
    rcases (Launch.uses_of_step hstep).files item hitem with hitem | hitem
    · exact h item hitem
    · exact hitem
  | @gaveUp task now outcome launch => cases launch.setAside <;> trivial
  | asked hhost hready htake =>
    unfold SupervisePc.take at htake
    split at htake <;> cases htake <;> exact forall_mem_nil _
  | superviseStep hstep => exact Vm.files_of_supervise h hstep
  | dropped => exact h
  | _ => trivial

/-- A launch may yet take the memory file out of the jail of an id. -/
inductive System.Reads (node : System) (id : Str) : Prop
  | mk {task launch pc vm} (hs : node.Stands launch.name (.launching task launch pc vm))
      (hreads : pc.reads launch vm) (hid : hostId launch.vmAddress = id)

/-- A wake comes to a jail without a memory file, and its load either takes effect or fails. -/
def System.wakesClean (node : System) : NodeEvent → Bool
  | .launch task outcome _ =>
    match node.up.bind fun up => up.agent.launches[task]?,
      node.up.bind fun up => up.launching[task]? with
    | some launch, some (.spawnJailer, _) =>
      !launch.isWake || !node.host.hasMem (.wake (hostId launch.vmAddress))
    | some _, some (.loadSnapshot, _) => outcome != .partly
    | _, _ => true
  | _ => true

/-- A launch comes to its jail when a wake spawns jailer, and finds no memory file there. -/
theorem System.Reads.of_step (hnode : node.Reached subnet) (hclean : node.wakesClean event)
    (hstep : node.step subnet event = some next) (h : next.Reads id) :
    node.Reads id ∨ next.host.hasMem (.wake id) = false := by
  obtain ⟨hs', hreads, rfl⟩ := h
  obtain ⟨s, hs, hmove⟩ := hnode.nameMove hstep hs'
  rcases hmove.launching rfl with rfl | ⟨-, rfl, rfl⟩ | ⟨now, outcome, pc₀, vm₀, rfl, rfl, heffect⟩
  · exact .inl (.mk hs hreads rfl)
  · cases hreads
  · rcases (Launch.uses_of_step heffect).reads hreads with hreads | ⟨rfl, hwake⟩
    · exact .inl (.mk hs hreads rfl)
    · refine .inr (Bool.eq_false_iff.mpr fun hthere => ?_)
      have hbefore := (Launch.fewer_of_spawnJailer heffect).wake hthere
      obtain ⟨up, hup, hlaunch, hname, hpc⟩ := hs.of_launching
      simp only [wakesClean, hup, bind_some, hlaunch, hpc, hwake, Bool.not_true,
        Bool.false_or, Bool.not_eq_true'] at hclean
      cases hclean.symm.trans hbefore

/-! ## What the other steps do to memory files -/

theorem Host.hasMem_of_setObjects {a objects}
    (hjail : ∀ file, objects.jail.any (·.contains file) →
      (host.objectsAt (hostId a)).jail.any (·.contains file))
    (h : (host.setObjects a objects).hasMem file) : host.hasMem file := by
  cases file with
  | parked name => exact h
  | park | wake =>
    rw [hasMem, objectsAt_setObjects] at h
    split at h
    · rename_i heq
      subst heq
      exact hjail _ h
    · exact h

theorem Host.hasMem_of_removeSnapshot {name outcome}
    (h : (host.removeSnapshot name outcome).hasMem file) : host.hasMem file := by
  cases file with
  | parked other =>
    cases outcome with
    | ok =>
      simp only [hasMem, removeSnapshot, lookup_erase] at h
      split at h
      · cases h
      · exact h
    | partly =>
      simp only [hasMem, removeSnapshot, lookup_insert] at h
      split at h
      · cases h
      · exact h
    | failed => exact h
  | park id => exact h
  | wake id => exact h

/-- An agent that starts brings no memory file. -/
theorem AgentProcess.BootMove.hasMem {outcome now}
    (hmove : up.BootMove subnet host outcome now next) (h : next.host.hasMem file) :
    host.hasMem file := by
  cases hmove with
  | dropSnapshot => exact Host.hasMem_of_removeSnapshot h
  | killAll =>
    dsimp only at h
    split at h
    · refine Host.hasMem_of_setObjects (fun file hfile => ?_) h
      unfold Objects.killAll at hfile
      split at hfile <;> exact hfile
    · exact h
  | undo =>
    dsimp only at h
    split at h
    · exact Host.hasMem_of_setObjects (Objects.hasFile_undo _ _) h
    · exact h
  | _ => exact h

theorem AgentProcess.RemoveMove.hasMem {outcome} (hmove : up.RemoveMove host outcome next)
    (h : next.host.hasMem file) : host.hasMem file := by
  cases hmove with
  | snapshot => exact Host.hasMem_of_removeSnapshot h
  | _ => exact h

/-! ## Images as tokens -/

namespace Images

theorem held_eq_some {token} : (images.tokens host).held file = some token ↔
    host.hasMem file ∧ images.holds file = token := by
  simp [tokens]

theorem drops_tokens (hless : ∀ file, later.hasMem file → host.hasMem file)
    (file : MemFile) (token : Nat) (h : (images.tokens later).held file = some token) :
    (images.tokens host).held file = some token := by
  rw [held_eq_some] at h ⊢
  exact ⟨hless file h.1, h.2⟩

theorem makes_tokens {target}
    (hless : ∀ file ≠ target, later.hasMem file → host.hasMem file) (file : MemFile)
    (token : Nat) (h : ((images.write target).tokens later).held file = some token) :
    file = target ∧ token = images.next ∨
      file ≠ target ∧ (images.tokens host).held file = some token := by
  simp only [held_eq_some, write, Function.update_apply] at h
  split at h
  · rename_i heq
    exact .inl ⟨heq, h.2.symm⟩
  · rename_i hne
    exact .inr ⟨hne, held_eq_some.mpr ⟨hless file hne h.1, h.2⟩⟩

theorem moves_tokens {source target} (hthere : host.hasMem source)
    (hgone : later.hasMem source = false)
    (hless : ∀ file ≠ target, later.hasMem file → host.hasMem file) (file : MemFile)
    (token : Nat) (h : ((images.rename source target).tokens later).held file = some token) :
    file = target ∧ (images.tokens host).held source = some token ∨
      file ≠ source ∧ file ≠ target ∧ (images.tokens host).held file = some token := by
  simp only [held_eq_some, rename, Function.update_apply] at h
  split at h
  · rename_i heq
    exact .inl ⟨heq, held_eq_some.mpr ⟨hthere, h.2⟩⟩
  · rename_i hne
    refine .inr ⟨?_, hne, held_eq_some.mpr ⟨hless file hne h.1, h.2⟩⟩
    rintro rfl
    exact absurd h.1 (Bool.eq_false_iff.mp hgone)

end Images

/-- A guest may yet be resumed from the file: a wake takes it from a parked VM, and what a
park leaves in its jail goes there. -/
def System.Open (node : System) : MemFile → Prop
  | .parked _ | .park _ => True
  | .wake id => node.Reads id

/-- What holds of a Node's images, as long as wakes are clean. -/
structure Album.Sound (subnet : Subnet) (album : Album) : Prop where
  reached : album.node.Reached subnet
  renames : ∀ {name s}, album.node.Stands name s → s.RenamesOwn
  tokens : (album.images.tokens album.node.host).Sound
  unspent : ∀ file, album.node.Open file → (album.images.tokens album.node.host).Unspent file
  once : album.images.resumed.Nodup

/-- What a step can do to images. -/
inductive Album.Move (album next : Album) : Prop
  | keeps (himages : next.images = album.images)
      (hless : ∀ file, next.node.host.hasMem file → album.node.host.hasMem file)
  | writes (target : MemFile) (himages : next.images = album.images.write target)
      (hless : ∀ file ≠ target, next.node.host.hasMem file →
        album.node.host.hasMem file)
  | renames (source target : MemFile) (himages : next.images = album.images.rename source target)
      (hopen : album.node.Open source) (hthere : album.node.host.hasMem source)
      (hgone : next.node.host.hasMem source = false)
      (hless : ∀ file ≠ target, next.node.host.hasMem file →
        album.node.host.hasMem file)
  | resumes (source : MemFile) (himages : next.images = album.images.resume source)
      (hopen : album.node.Open source) (hthere : album.node.host.hasMem source)
      (hsame : next.node.host.hasMem = album.node.host.hasMem)
      (hclosed : ¬ next.node.Open source)

/-- A step keeps the invariant if the files it opens are not there. -/
theorem Album.Sound.of_move {album next : Album} (h : album.Sound subnet)
    (hreached : next.node.Reached subnet)
    (hrenames : ∀ {name s}, next.node.Stands name s → s.RenamesOwn) (hmove : album.Move next)
    (hopens : ∀ file, next.node.Open file → album.node.Open file ∨
      next.node.host.hasMem file = false) : next.Sound subnet := by
  obtain ⟨node, images⟩ := next
  -- A file that is not there holds no token, and one that was open held none that was spent.
  have hunspent (hkept : ∀ file, node.Open file → album.node.Open file →
      (images.tokens node.host).Unspent file) (file : MemFile) (hopen : node.Open file) :
      (images.tokens node.host).Unspent file := by
    rcases hopens file hopen with hbefore | hnot
    · exact hkept file hopen hbefore
    · intro token htoken
      rw [Images.held_eq_some, hnot] at htoken
      cases htoken.1
  cases hmove with
  | keeps himages hless =>
    cases himages
    have hdrops := fun file token => @Images.drops_tokens _ _ album.images hless file token
    exact ⟨hreached, @hrenames, h.tokens.step (.drops hdrops),
      hunspent fun file _ hopen => (h.unspent file hopen).of_drops hdrops, h.once⟩
  | writes target himages hless =>
    cases himages
    have hmakes := fun file token => @Images.makes_tokens _ _ album.images _ hless file token
    exact ⟨hreached, @hrenames, h.tokens.step (.makes target hmakes),
      hunspent fun file _ hopen => (h.unspent file hopen).of_makes h.tokens hmakes, h.once⟩
  | renames source target himages hopen hthere hgone hless =>
    cases himages
    have hmoves := fun file token =>
      @Images.moves_tokens _ _ album.images _ _ hthere hgone hless file token
    have hsource := h.unspent source hopen
    refine ⟨hreached, @hrenames, h.tokens.step (.moves source target hmoves),
      hunspent fun file _ hopen => ?_, h.once⟩
    exact .of_moves (fun _ => h.unspent file hopen) (fun _ => hsource) hmoves
  | resumes source himages hopen hthere hsame hclosed =>
    cases himages
    have hsource : (album.images.tokens album.node.host).held source =
        some (album.images.holds source) := Images.held_eq_some.mpr ⟨hthere, rfl⟩
    have htokens : (album.images.resume source).tokens node.host =
        { album.images.tokens album.node.host with
          spent := album.images.holds source :: album.images.resumed } := by
      simp only [Images.tokens, Images.resume, hsame]
    refine ⟨hreached, @hrenames, ?_, hunspent fun file hafter hopen => ?_, ?_⟩
    · show ((album.images.resume source).tokens node.host).Sound
      rw [htokens]
      exact h.tokens.step (.spends source hsource)
    · show ((album.images.resume source).tokens node.host).Unspent file
      rw [htokens]
      refine (h.unspent file hopen).of_spends h.tokens hsource ?_
      rintro rfl
      exact hclosed hafter
    · exact Tokens.nodup_of_spends h.once (h.unspent source hopen) hsource

/-! ## Steps -/

/-- Launches at work have addresses of their own. -/
theorem System.Reached.launch_unique (h : node.Reached subnet) {other launch launch' pc pc' vm vm'}
    (hs : node.Stands launch.name (.launching task launch pc vm))
    (hs' : node.Stands launch'.name (.launching other launch' pc' vm'))
    (hid : hostId launch'.vmAddress = hostId launch.vmAddress) : pc' = pc ∧ vm' = vm ∧
      launch' = launch := by
  have haddress : launch'.vmAddress = launch.vmAddress := by
    by_contra hne
    exact (subnet.names_ne (h.mem_vmAddresses hs' rfl) (h.mem_vmAddresses hs rfl) hne).1 hid
  have hname := h.name_unique hs' (congrArg some haddress) hs rfl
  rw [hname] at hs'
  cases h.stands_unique hs hs'
  exact ⟨rfl, rfl, rfl⟩

/-- A slice that is put back as it was. -/
theorem Host.hasMem_put_self (host : Host) (name : Str) (a : Ipv4Addr) :
    (host.put name a (host.view name a)).hasMem = host.hasMem := by
  funext file
  cases file with
  | parked other =>
    rw [hasMem_put_parked]
    split
    · rename_i heq
      subst heq
      rfl
    · rfl
  | park id =>
    rw [hasMem_put_park]
    split
    · rename_i heq
      subst heq
      rfl
    · rfl
  | wake id =>
    rw [hasMem_put_wake]
    split
    · rename_i heq
      subst heq
      rfl
    · rfl

section

variable {album : Album} {launch : Launch} {outcome : Outcome} {now : Nat} {pc pc' : LaunchPc}
  {vm vm' : Vm} {view' : View}

variable (h : album.Sound subnet)
include h

/-- An effect of a launch, on images. -/
theorem Album.Sound.move_of_launch {node} (hnode : node.Reached subnet) (hhost : node.host =
      album.node.host.put launch.name launch.vmAddress view')
    (hs : album.node.Stands launch.name (.launching task launch pc vm))
    (hs' : node.Stands launch.name (.launching task launch pc' vm'))
    (hclean : pc = .loadSnapshot → outcome ≠ .partly)
    (heffect : launch.step album.node.host.nextProcess outcome now pc vm
      (album.node.host.view launch.name launch.vmAddress) = some (pc', vm', view')) :
    album.Move ⟨node, album.images.launched launch outcome pc vm
      (album.node.host.view launch.name launch.vmAddress)⟩ := by
  obtain ⟨host, up⟩ := node
  subst hhost
  have hmem : launch.MemStep _ _ _ _ _ album.images _ := Launch.memStep (h.renames hs) heffect
  generalize album.images.launched launch outcome pc vm
    (album.node.host.view launch.name launch.vmAddress) = images at hmem ⊢
  cases hmem with
  | keeps hless => exact .keeps rfl hless.hasMem
  | movesIn hmoved =>
    obtain ⟨hthere, hparked, hjail⟩ := View.hasMem_moveIn hmoved
    refine .renames _ _ rfl trivial hthere ?_ ?_
    · rw [Host.hasMem_put_parked, if_pos rfl, Bool.eq_false_iff]
      exact fun hstill => (hparked.mp hstill).2 rfl
    · intro file hne hfile
      refine Host.hasMem_of_put (fun _ hp => (hparked.mp hp).1) (fun _ hp => ?_)
        (fun heq => absurd heq hne) hfile
      exact ((hjail _).mp hp).resolve_right nofun
  | movesBack hreads hmoved =>
    obtain ⟨hthere, hparked, hjail⟩ := View.hasMem_moveOut hmoved
    refine .renames _ _ rfl (.mk hs hreads rfl) hthere ?_ ?_
    · rw [Host.hasMem_put_wake, if_pos rfl, Bool.eq_false_iff]
      exact fun hstill => ((hjail _).mp hstill).2 rfl
    · intro file hne hfile
      exact Host.hasMem_of_put (fun heq => absurd heq hne) (fun _ hp => ((hjail _).mp hp).1)
        (fun _ hp => ((hjail _).mp hp).1) hfile
  | resumes hload heffects hthere hsame =>
    subst hload
    have hok : outcome = .ok := by
      cases outcome with
      | ok => rfl
      | failed => exact absurd rfl heffects
      | partly => exact absurd rfl (hclean rfl)
    subst hok
    cases heffect
    refine .resumes _ rfl (.mk hs rfl rfl) hthere (Host.hasMem_put_self ..) ?_
    -- The wake goes on to record its VM, and no other launch works at its address.
    rintro ⟨hother, hreads, hid⟩
    obtain ⟨rfl, rfl, rfl⟩ := hnode.launch_unique hs' hother hid
    cases hreads

/-- An effect of a supervisor, on images. -/
theorem Album.Sound.move_of_supervise {name reason pc pc' info log}
    (hs : album.node.Stands name (.running task info log pc vm))
    (heffect : vm.supervise outcome reason pc (album.node.host.view name vm.vmAddress) =
      some (pc', vm', view')) :
    album.Move ⟨⟨album.node.host.put name vm.vmAddress view',
      some { up with supervising := up.supervising.insert task (pc', vm') }⟩,
      album.images.supervised name outcome pc vm (album.node.host.view name vm.vmAddress)⟩ := by
  have hmem : vm.MemStep name _ _ album.images _ := Vm.memStep (h.renames hs) heffect
  generalize album.images.supervised name outcome pc vm
    (album.node.host.view name vm.vmAddress) = images at hmem ⊢
  cases hmem with
  | keeps hless => exact .keeps rfl hless.hasMem
  | writes hparked hwake =>
    refine .writes _ rfl fun file hne hfile => ?_
    exact Host.hasMem_of_put (fun _ hp => hparked ▸ hp) (fun heq => absurd heq hne)
      (fun _ hp => hwake ▸ hp) hfile
  | movesOut hmoved =>
    obtain ⟨hthere, hparked, hjail⟩ := View.hasMem_moveOut hmoved
    refine .renames _ _ rfl trivial hthere ?_ ?_
    · rw [Host.hasMem_put_park, if_pos rfl, Bool.eq_false_iff]
      exact fun hstill => ((hjail _).mp hstill).2 rfl
    · intro file hne hfile
      exact Host.hasMem_of_put (fun heq => absurd heq hne) (fun _ hp => ((hjail _).mp hp).1)
        (fun _ hp => ((hjail _).mp hp).1) hfile

/-- Every step of a Node whose wakes are clean. -/
theorem Album.Sound.move_of_step {next} (hclean : album.node.wakesClean event)
    (hstep : album.step subnet event = some next) : album.Move next := by
  obtain ⟨node, hnode, rfl⟩ := map_eq_some_iff.mp hstep
  rcases System.step_eq_some hnode with ⟨vmAddress, process, rfl, rfl⟩ | ⟨rfl, hdown, rfl⟩ |
    ⟨up, hup, hmove⟩
  · refine .keeps ?_ fun file => Host.hasMem_of_setObjects fun jailFile hjail => ?_
    · cases album.node.up <;> rfl
    · exact hjail
  · refine .keeps ?_ fun file hfile => hfile
    rw [hdown]
    rfl
  · simp only [hup, elim_some]
    have hnext := h.reached.step hnode
    cases hmove with
    | @launches task now outcome launch pc vm next hlaunch hpc hmove =>
      simp only [after, hlaunch, hpc]
      cases hmove with
      | @effect pc' vm' view' heffect =>
        have hpc' : (up.launching.insert task (pc', vm'))[task]? = some (pc', vm') := by simp
        refine h.move_of_launch hnext rfl (.up hup (.launching hlaunch rfl hpc))
          (.up rfl (.launching hlaunch rfl hpc')) ?_ heffect
        rintro rfl rfl
        simp [System.wakesClean, hup, hlaunch, hpc] at hclean
      | handOver hpc | giveUp hpc | lose hpc =>
        subst hpc
        exact .keeps rfl fun file hfile => hfile
    | supervises hsup hpc hmove =>
      simp only [after, hsup, hpc]
      cases hmove with
      | record hpc =>
        subst hpc
        exact .keeps rfl fun file hfile => by cases file <;> exact hfile
      | effect heffect =>
        obtain ⟨info, log, hentry, -⟩ := (h.reached.sound.up hup).superviseSound hsup hpc
        exact h.move_of_supervise (.up hup (.running hsup hentry hpc)) heffect
    | starts hmove | removes hmove => exact .keeps rfl fun file => hmove.hasMem
    | begins hfrom hmove => cases hfrom <;> cases hmove <;> exact .keeps rfl fun file => id
    | opens | asked | removing | onMachines | sigterm | exits | crashes =>
      exact .keeps rfl fun file => id

theorem Album.Sound.step {next : Album} (hclean : album.node.wakesClean event)
    (hstep : album.step subnet event = some next) : next.Sound subnet := by
  have hmove := h.move_of_step hclean hstep
  obtain ⟨node, hnode, rfl⟩ := map_eq_some_iff.mp hstep
  refine h.of_move (h.reached.step hnode) (fun hs' => ?_) hmove fun file hopen => ?_
  · obtain ⟨s, hs, hmove⟩ := h.reached.nameMove hnode hs'
    exact (h.renames hs).step hmove
  · cases file with
    | parked | park => exact .inl trivial
    | wake id => exact System.Reads.of_step h.reached hclean hnode hopen

end

theorem Album.Sound.fresh (subnet : Subnet) : Album.fresh.Sound subnet := by
  have hnone (file : MemFile) : System.fresh.host.hasMem file = false := by
    cases file <;> simp [Host.hasMem, System.fresh, Host.empty, Host.objectsAt, Objects.none]
  have hheld (file : MemFile) :
      (Album.fresh.images.tokens System.fresh.host).held file = none := by
    simp [Images.tokens, hnone]
  refine ⟨.fresh subnet, fun hs => ?_, ⟨?_, ?_, forall_mem_nil _⟩,
    fun file _ token htoken => ?_, nodup_nil⟩
  · cases hs with
    | down => trivial
    | up hup => cases hup
  · intro file token htoken
    cases (hheld file).symm.trans htoken
  · intro file other token htoken
    cases (hheld file).symm.trans htoken
  · cases (hheld file).symm.trans htoken

/-- The step is clean, as wakes go. -/
def Album.WakesClean (album : Album) (event : NodeEvent) : Prop :=
  album.node.wakesClean event = true

instance (album : Album) (event : NodeEvent) : Decidable (album.WakesClean event) :=
  inferInstanceAs (Decidable (_ = _))

theorem Album.Sound.of_run {album schedule}
    (hclean : Along (Album.step subnet) Album.WakesClean .fresh schedule)
    (hrun : run (Album.step subnet) .fresh schedule = some album) : album.Sound subnet :=
  run_preserves (fun hclean h hstep => h.step hclean hstep) (.fresh subnet) hclean hrun

/-- In a run whose wakes are clean no image is resumed twice, and no memory file of a parked
VM holds one that was resumed. -/
theorem snapshot_runs_at_most_once {album : Album} {schedule : List NodeEvent}
    (hclean : Along (Album.step subnet) Album.WakesClean .fresh schedule)
    (hrun : run (Album.step subnet) .fresh schedule = some album) :
    album.images.resumed.Nodup ∧
      ∀ name, album.node.host.hasMem (.parked name) = true →
        album.images.holds (.parked name) ∉ album.images.resumed := by
  have h := Album.Sound.of_run hclean hrun
  refine ⟨h.once, fun name hthere => ?_⟩
  exact h.unspent (.parked name) trivial (Images.held_eq_some.mpr ⟨hthere, rfl⟩)

/-- A wake, up to the load of its snapshot. -/
def NodeEvent.wakes (name : Str) (task : Nat) : List NodeEvent :=
  .wakeVm name :: List.replicate 8 (.launch task .ok 0)

/-- The load takes effect and answers with an error; the wake puts the snapshot back and
gives up, and the next one loads it again. -/
def lateErrorSchedule : List NodeEvent :=
  parkSchedule ++ NodeEvent.wakes "web" 2 ++
    .launch 2 .partly 0 :: List.replicate 11 (.launch 2 .ok 0) ++
    NodeEvent.wakes "web" 3 ++ [.launch 3 .ok 0]

/-- The jail of a VM that woke outlives it, since its removal fails. The wake of another VM
at the address fails before its snapshot is in the jail, and puts back what it finds there. -/
def staleJailSchedule : List NodeEvent :=
  parkSchedule ++ NodeEvent.starts "db" 2 ++ NodeEvent.parks 3 ++
    NodeEvent.wakes "web" 4 ++ List.replicate 4 (.launch 4 .ok 0) ++
    .stop 5 .force :: [.ok, .ok, .ok, .failed, .ok, .ok, .ok].map (.supervise 5 · .exited 0) ++
    .wakeVm "db" :: .launch 6 .ok 0 :: .launch 6 .failed 0 ::
      List.replicate 10 (.launch 6 .ok 0) ++
    NodeEvent.wakes "db" 7 ++ [.launch 7 .ok 0]

/-- Either way, two guests were resumed from the first image. -/
theorem snapshot_resumed_twice :
    (∃ album, run (Album.step .sample) .fresh lateErrorSchedule = some album ∧
        album.images.resumed = [0, 0]) ∧
      ∃ album, run (Album.step .sample) .fresh staleJailSchedule = some album ∧
        album.images.resumed = [0, 0] := by
  decide +kernel

/-- A VM is parked, woken and parked again. -/
def parkedAgainSchedule : List NodeEvent :=
  parkSchedule ++ NodeEvent.wakes "web" 2 ++ List.replicate 4 (.launch 2 .ok 0) ++
    NodeEvent.parks 3

/-- The theorem applies: the second snapshot is not the one that was resumed. -/
theorem second_snapshot_unused :
    ∃ album, run (Album.step .sample) .fresh parkedAgainSchedule = some album ∧
      album.images.resumed = [0] ∧ album.node.host.hasMem (.parked "web") = true ∧
      album.images.holds (.parked "web") ∉ album.images.resumed := by
  obtain ⟨album, hrun, hresumed, hmem⟩ : ∃ album,
      run (Album.step .sample) .fresh parkedAgainSchedule = some album ∧
      album.images.resumed = [0] ∧ album.node.host.hasMem (.parked "web") := by
    decide +kernel
  have hclean : Along (Album.step .sample) Album.WakesClean .fresh parkedAgainSchedule := by
    decide +kernel
  exact ⟨album, hrun, hresumed, hmem, (snapshot_runs_at_most_once hclean hrun).2 _ hmem⟩

end Cirrocumulus.Node
