/-
# What a teardown leaves on the host

A start and a wake run some three dozen commands, and the first that fails ends them.
Before or after the commands that make host objects they push the steps that undo them,
and a teardown kills the VMM and pops these. Here every command is a step of its own,
also each line of an `ip -batch`, and jailer makes its directory and its cgroup at any
time while it lives.

The host is any set of objects, each with a kind and a name, so objects that an earlier
VM left under the same name may be there from the start. The step that deletes the veth
is pushed just before the veth is made. A start that fails between making the namespace
and that push leaves a veth that was there before, and undoes everything else.
-/

import Cirrocumulus.Node.Lifecycle

namespace Cirrocumulus.Teardown

open Node
open Lib List Option

variable {kind : Undo}

/-! ## Commands -/

/-- What `host_steps`, `start_steps` and `wake_steps` do, in the words of the source. -/
inductive Command
  | netnsAdd
  | push (undo : Undo)
  | createJailBase | openConsole | chownConsole | cloneConsole
  | spawnJailer | identifyJailer
  -- The lines of `ip -batch` on the Node's side of the veth.
  | linkAdd | addrAdd | linkUp | routeAdd
  -- Those inside the namespace.
  | loUp | tapAdd | tapAddr | tapMac | tapUp | vethAddr | vethUp | nodeRoute | defaultRoute
  | ipForward | nft | awaitSocket
  -- A start's own steps.
  | copyKernel | createRootfs | copyRootfs | chownRootfs | attachTap | attachVsock | boot
  | deliverConfig | startGrace
  -- A wake's.
  | moveSnapshot | chownFile (file : JailFile) | loadSnapshot
  deriving DecidableEq

/-- `Vm::host_steps`. -/
def hostSteps : List Command :=
  [.netnsAdd, .push .netns, .push .jail, .push .cgroup, .createJailBase, .openConsole,
    .chownConsole, .cloneConsole, .spawnJailer, .identifyJailer, .push .link, .linkAdd, .addrAdd,
    .linkUp, .routeAdd, .loUp, .tapAdd, .tapAddr, .tapMac, .tapUp, .vethAddr, .vethUp,
    .nodeRoute, .defaultRoute, .ipForward, .nft, .awaitSocket]

/-- `Vm::start_steps`. -/
def startSteps : List Command :=
  hostSteps ++ [.copyKernel, .createRootfs, .copyRootfs, .chownRootfs, .attachTap, .attachVsock,
    .boot, .deliverConfig, .startGrace]

/-- `Vm::wake_steps`. -/
def wakeSteps : List Command :=
  hostSteps ++ .moveSnapshot :: (wakeFiles.map fun file => .chownFile file.1) ++ [.loadSnapshot]

/-! ## A VM's host state -/

/-- A host object: a namespace, a link, a jail directory or a cgroup of a name. -/
abbrev Object := Undo × Str

/-- How a VM came to be. -/
inductive Origin
  | start | wake | adopt
  deriving DecidableEq

inductive Pc
  /-- What is left to do. With nothing left the VM is up. -/
  | steps (todo : List Command)
  | kill
  | unwind
  deriving DecidableEq

/-- A `Vm`, and the host it works on. -/
structure Task where
  id : Str
  host : List Object
  /-- The undo steps, the one to be popped next first. -/
  undo : List Object := []
  /-- Whether jailer, or the VMM it became, lives. -/
  vmm : Bool := false
  pc : Pc
  /-- What was left when a command failed, that one first. -/
  failedAt : Option (List Command) := none
  deriving DecidableEq

/-- `Vm::start`, `Vm::wake` and `Vm::adopt`. -/
def Task.begin (origin : Origin) (vmAddress : Ipv4Addr) (host : List Object) : Task :=
  let id := hostId vmAddress
  match origin with
  | .start => { id, host, pc := .steps startSteps }
  | .wake => { id, host, pc := .steps wakeSteps }
  | .adopt => { id, host, pc := .steps [], undo := undoSteps.map (·, id), vmm := true }

variable (task : Task)

/-- A VM whose teardown is over. -/
def Task.over : Bool :=
  task.pc = .unwind && task.undo.isEmpty

inductive Event
  /-- The next command succeeds or fails. A line of a batch that fails may have its effect. -/
  | command (outcome : Outcome)
  /-- jailer makes its directory or its cgroup. -/
  | jailer (makes : Undo)
  | exit
  /-- A VM that is up ends, is stopped or can't be kept. -/
  | ends
  | kill
  | undo (ok : Bool)
  deriving DecidableEq

/-- The undo step that a command pushes. -/
def Command.pushes : Command → Option Undo
  | .push undo => some undo
  | _ => none

/-- The object that a command makes by itself. -/
def Command.makes : Command → Option Undo
  | .netnsAdd => some .netns
  | .linkAdd => some .link
  | _ => none

def Task.make (kind : Undo) : Task :=
  { task with host := (kind, task.id) :: task.host.filter (· ≠ (kind, task.id)) }

/-- A command has its effect. -/
def Task.apply (command : Command) : Task :=
  match command.makes with
  | some kind => task.make kind
  | none => if command = .spawnJailer then { task with vmm := true } else task

/-- A name that is taken is refused. -/
def Task.refuses (command : Command) : Bool :=
  command.makes.any fun kind => (kind, task.id) ∈ task.host

/-- A command fails, and a teardown begins. -/
def Task.fail (todo : List Command) : Task :=
  { task with pc := .kill, failedAt := some todo }

/-- The next command. A namespace that can't be made is not there afterwards. -/
def Task.command (outcome : Outcome) : List Command → Option Task
  | [] => none
  | command :: rest =>
    match command.pushes with
    | some undo =>
      some { task with undo := (undo, task.id) :: task.undo, pc := .steps rest }
    | none =>
      match outcome with
      | .ok =>
        if task.refuses command then none
        else some { task.apply command with pc := .steps rest }
      | .failed => some (task.fail (command :: rest))
      | .partly =>
        if command = .netnsAdd then none
        else some ((task.apply command).fail (command :: rest))

def Task.step : Event → Option Task
  | .command outcome =>
    match task.pc with
    | .steps todo => task.command outcome todo
    | _ => none
  | .jailer kind =>
    if task.vmm && (kind = .jail || kind = .cgroup) then some (task.make kind) else none
  | .exit => if task.vmm then some { task with vmm := false } else none
  | .ends => if task.pc = .steps [] then some { task with pc := .kill } else none
  | .kill => if task.pc = .kill then some { task with vmm := false, pc := .unwind } else none
  | .undo ok =>
    match task.pc, task.undo with
    | .unwind, object :: rest =>
      some { task with
        undo := rest
        host := if ok then task.host.filter (· ≠ object) else task.host }
    | _, _ => none

/-- The start failed because the namespace could not be made. -/
def Task.refused : Bool :=
  task.failedAt.any fun todo => todo.head? = some .netnsAdd

/-- It failed later, before the step that deletes the veth was pushed. -/
def Task.failedEarly : Bool :=
  task.failedAt.any fun todo => todo.head? ≠ some .netnsAdd && todo.contains (.push .link)

theorem Task.failedEarly_of_refused (h : task.refused) : task.failedEarly = false := by
  cases hfailed : task.failedAt with
  | none => simp [failedEarly, hfailed]
  | some todo =>
    rw [refused, hfailed, any_some, decide_eq_true_eq] at h
    simp [failedEarly, hfailed, h]

/-! ## The order of the commands -/

/-- Nothing but the step that deletes the veth is pushed behind a command that can fail, the
first command apart, and that one not behind the command that makes the veth. -/
def Before (earlier later : Command) : Bool :=
  later ≠ .netnsAdd &&
    (later.pushes.isNone || earlier.pushes.isSome || earlier = .netnsAdd ||
      (later = .push .link && earlier ≠ .linkAdd))

/-- The undo steps that the commands push, in the order in which they are popped. -/
def pushed (todo : List Command) : List Undo :=
  (todo.filterMap Command.pushes).reverse

theorem startSteps_ordered : startSteps.Pairwise (Before · ·) := by
  decide

theorem wakeSteps_ordered : wakeSteps.Pairwise (Before · ·) := by
  decide

/-- A start registers what `undo_steps` lists for a VM that is taken back. -/
theorem pushed_startSteps : pushed startSteps = undoSteps := by
  decide

theorem pushed_wakeSteps : pushed wakeSteps = undoSteps := by
  decide

@[simp]
theorem pushes_push (kind : Undo) : (Command.push kind).pushes = some kind := rfl

theorem Command.eq_push {command : Command} (h : command.pushes = some kind) :
    command = .push kind := by
  cases command with
  | push undo =>
    cases h
    rfl
  | _ => cases h

theorem Command.eq_linkAdd {command : Command} (h : command.makes = some .link) :
    command = .linkAdd := by
  cases command with
  | linkAdd => rfl
  | _ => cases h

section

variable {earlier : Command} {rest : List Command}

theorem netnsAdd_not_mem (h : (earlier :: rest).Pairwise (Before · ·)) : .netnsAdd ∉ rest := by
  intro hmem
  have hbefore := (pairwise_cons.mp h).1 _ hmem
  simp [Before] at hbefore

/-- Behind a command that can fail only the veth's undo step is left to be pushed. -/
theorem push_eq_link (h : (earlier :: rest).Pairwise (Before · ·)) (hpushes : earlier.pushes = none)
    (hne : earlier ≠ .netnsAdd) (hmem : .push kind ∈ rest) : kind = .link ∧ earlier ≠ .linkAdd := by
  have hbefore := (pairwise_cons.mp h).1 _ hmem
  simpa [Before, hpushes, hne] using hbefore

theorem mem_pushed {todo : List Command} : kind ∈ pushed todo ↔ .push kind ∈ todo := by
  rw [pushed, mem_reverse, mem_filterMap]
  constructor
  · rintro ⟨command, hmem, hpushes⟩
    rwa [← Command.eq_push hpushes]
  · intro hmem
    exact ⟨_, hmem, rfl⟩

theorem pushed_cons_of_none (h : earlier.pushes = none) :
    pushed (earlier :: rest) = pushed rest := by
  rw [pushed, filterMap_cons_none h, pushed]

theorem pushed_push (kind : Undo) : pushed (.push kind :: rest) = pushed rest ++ [kind] := by
  rw [pushed, filterMap_cons_some (pushes_push kind), reverse_cons, pushed]

end

/-! ## What is registered -/

/-- The teardown of a VM whose namespace was made. `covered` says which objects are left to be
removed, and `kept` that a veth whose undo step was not pushed yet is nobody's. -/
structure Task.Registered (before : List Object) (task : Task) (covered : Undo → Prop) : Prop where
  refused : task.refused = false
  covered : ∀ kind, covered kind →
    (kind, task.id) ∈ task.undo ∨ task.failedEarly ∧ kind = .link
  kept : task.failedEarly → (.link, task.id) ∉ task.undo ∧
    ((.link, task.id) ∈ task.host ↔ (.link, task.id) ∈ before)

/-- Where a VM is in its life, and what its undo steps cover there. -/
inductive Task.Stage (before : List Object) (task : Task) : Prop
  | fresh {rest} (hpc : task.pc = .steps (.netnsAdd :: rest))
      (hordered : (Command.netnsAdd :: rest).Pairwise (Before · ·)) (hhost : task.host = before)
      (hundo : task.undo = []) (hvmm : task.vmm = false) (hpushed : pushed rest = undoSteps)
      (hfailed : task.failedAt = none)
  | steps {todo} (hpc : task.pc = .steps todo)
      (hordered : todo.Pairwise (Before · ·)) (hnetns : .netnsAdd ∉ todo)
      (hstack : (pushed todo).map (·, task.id) ++ task.undo = undoSteps.map (·, task.id))
      (hlink : .push .link ∈ todo →
        ((.link, task.id) ∈ task.host ↔ (.link, task.id) ∈ before)) (hfailed : task.failedAt = none)
  | refused (hpc : task.pc = .kill ∨ task.pc = .unwind) (hhost : task.host = before)
      (hundo : task.undo = []) (hvmm : task.vmm = false) (hrefused : task.refused)
  | kill (hpc : task.pc = .kill) (hleft : task.Registered before fun _ => True)
  | unwind (hpc : task.pc = .unwind) (hvmm : task.vmm = false)
      (hleft : task.Registered before fun kind => (kind, task.id) ∈ task.host)

/-- Objects of other names are as they were, and no undo step is for one. -/
structure Task.Own (before : List Object) (task : Task) : Prop where
  others : ∀ object : Object, object.2 ≠ task.id → (object ∈ task.host ↔ object ∈ before)
  undo : ∀ object ∈ task.undo, object.2 = task.id

section

variable {before : List Object} {task next : Task} {event : Event}

@[simp]
theorem Task.mem_make {object} :
    object ∈ (task.make kind).host ↔ object = (kind, task.id) ∨ object ∈ task.host := by
  by_cases heq : object = (kind, task.id)
  · simp [make, heq]
  · simp [make, heq]

theorem Task.link_make (h : kind ≠ .link) :
    (.link, task.id) ∈ (task.make kind).host ↔ (.link, task.id) ∈ task.host := by
  simp [h.symm]

/-- A command that has its effect makes an object of the VM's own name at most. -/
theorem Task.apply_spec (task : Task) (command : Command) :
    (task.apply command).id = task.id ∧ (task.apply command).undo = task.undo ∧
      (task.apply command).failedAt = task.failedAt ∧
      (∀ object : Object, object.2 ≠ task.id →
        (object ∈ (task.apply command).host ↔ object ∈ task.host)) ∧
      (command ≠ .linkAdd →
        ((.link, task.id) ∈ (task.apply command).host ↔ (.link, task.id) ∈ task.host)) := by
  unfold Task.apply
  split
  · rename_i kind hmakes
    refine ⟨rfl, rfl, rfl, fun object hne => ?_, fun hlink => ?_⟩
    · rw [mem_make]
      apply or_iff_right
      rintro rfl
      exact hne rfl
    · apply link_make
      rintro rfl
      exact hlink (Command.eq_linkAdd hmakes)
  · split
    · exact ⟨rfl, rfl, rfl, fun _ _ => Iff.rfl, fun _ => Iff.rfl⟩
    · exact ⟨rfl, rfl, rfl, fun _ _ => Iff.rfl, fun _ => Iff.rfl⟩

/-- Behind the first command, a failure leaves everything registered but perhaps a veth. -/
theorem Task.registered_of_fail {command rest} {failing : Task} (hid : failing.id = task.id)
    (hundo : failing.undo = task.undo) (hpushes : command.pushes = none)
    (hordered : (command :: rest).Pairwise (Before · ·)) (hnetns : .netnsAdd ∉ command :: rest)
    (hstack : (pushed (command :: rest)).map (·, task.id) ++ task.undo =
      undoSteps.map (·, task.id)) (hlink : command ≠ .linkAdd → .push .link ∈ command :: rest →
      ((.link, task.id) ∈ failing.host ↔ (.link, task.id) ∈ before)) :
    (failing.fail (command :: rest)).Registered before fun _ => True := by
  have hne : command ≠ .netnsAdd := fun heq => hnetns (heq ▸ mem_cons_self)
  have hearly : (failing.fail (command :: rest)).failedEarly ↔ .push .link ∈ rest := by
    have hnot : Command.push .link ≠ command := by
      rintro rfl
      cases hpushes
    simp [failedEarly, fail, hne, hnot]
  have hrest : pushed (command :: rest) = pushed rest := pushed_cons_of_none hpushes
  rw [hrest] at hstack
  refine ⟨?_, fun kind _ => ?_, fun hfailed => ?_⟩
  · simp [refused, fail, hne]
  · rw [hearly]
    have hmem : (kind, task.id) ∈ undoSteps.map (·, task.id) :=
      List.mem_map.mpr ⟨kind, by cases kind <;> decide, rfl⟩
    rw [← hstack] at hmem
    rcases mem_append.mp hmem with hmem | hmem
    · obtain ⟨other, hother, heq⟩ := List.mem_map.mp hmem
      cases heq
      rw [mem_pushed] at hother
      have heq := (push_eq_link hordered hpushes hne hother).1
      exact .inr ⟨heq ▸ hother, heq⟩
    · refine .inl ?_
      show (kind, failing.id) ∈ failing.undo
      rwa [hid, hundo]
  · rw [hearly] at hfailed
    have hadd := (push_eq_link hordered hpushes hne hfailed).2
    show (.link, failing.id) ∉ failing.undo ∧
      ((.link, failing.id) ∈ failing.host ↔ (.link, failing.id) ∈ before)
    rw [hid, hundo]
    refine ⟨fun hmem => ?_, hlink hadd (mem_cons_of_mem _ hfailed)⟩
    have hnodup : (undoSteps.map (·, task.id)).Nodup := by
      simp [undoSteps]
    rw [← hstack] at hnodup
    have hdisjoint := (nodup_append.mp hnodup).2.2
    exact hdisjoint _ (List.mem_map.mpr ⟨.link, mem_pushed.mpr hfailed, rfl⟩) _ hmem rfl

/-- What one command leads to. -/
theorem Task.Stage.command (h : task.Stage before) {outcome : Outcome} {todo}
    (hpc : task.pc = .steps todo) (hstep : task.command outcome todo = some next) :
    next.Stage before := by
  cases h with
  | @fresh rest hpc' hordered hhost hundo hvmm hpushed hfailed =>
    cases hpc.symm.trans hpc'
    simp only [Task.command, Command.pushes] at hstep
    cases outcome with
    | ok =>
      obtain ⟨-, hnext⟩ := ite_none_left_eq_some.mp hstep
      cases hnext
      refine .steps rfl (pairwise_cons.mp hordered).2 (netnsAdd_not_mem hordered) ?_ ?_
        hfailed
      · show (pushed rest).map (·, task.id) ++ task.undo = undoSteps.map (·, task.id)
        rw [hpushed, hundo, append_nil]
      · intro _
        show (.link, task.id) ∈ (task.make .netns).host ↔ (.link, task.id) ∈ before
        rw [link_make (by decide), hhost]
    | failed =>
      cases hstep
      exact .refused (.inl rfl) hhost hundo hvmm rfl
    | partly => cases hstep
  | @steps todo' hpc' hordered hnetns hstack hlink hfailed =>
    cases hpc.symm.trans hpc'
    cases todo with
    | nil => cases hstep
    | cons command rest =>
      have hnetns' : .netnsAdd ∉ rest := fun hmem => hnetns (mem_cons_of_mem _ hmem)
      have hordered' := (pairwise_cons.mp hordered).2
      obtain ⟨hid, hundo, hfailed', hothers, hmakes⟩ := task.apply_spec command
      cases hpushes : command.pushes with
      | some kind =>
        simp only [Task.command, hpushes] at hstep
        cases hstep
        cases Command.eq_push hpushes
        refine .steps rfl hordered' hnetns' ?_ ?_ hfailed
        · rw [pushed_push, map_append, append_assoc] at hstack
          exact hstack
        · intro hmem
          exact hlink (mem_cons_of_mem _ hmem)
      | none =>
        simp only [Task.command, hpushes] at hstep
        cases outcome with
        | ok =>
          obtain ⟨-, hnext⟩ := ite_none_left_eq_some.mp hstep
          cases hnext
          refine .steps rfl hordered' hnetns' ?_ ?_ (hfailed'.trans hfailed)
          · show (pushed rest).map (·, (task.apply command).id) ++
              (task.apply command).undo = undoSteps.map (·, (task.apply command).id)
            rw [hid, hundo, ← hstack, pushed_cons_of_none hpushes]
          · intro hmem
            have hne : command ≠ .netnsAdd := fun heq => hnetns (heq ▸ mem_cons_self)
            have hadd := (push_eq_link hordered hpushes hne hmem).2
            show (.link, (task.apply command).id) ∈ (task.apply command).host ↔
              (.link, (task.apply command).id) ∈ before
            rw [hid, hmakes hadd]
            exact hlink (mem_cons_of_mem _ hmem)
        | failed =>
          cases hstep
          refine .kill rfl (registered_of_fail rfl rfl hpushes hordered hnetns hstack ?_)
          intro _
          exact hlink
        | partly =>
          obtain ⟨-, hnext⟩ := ite_none_left_eq_some.mp hstep
          cases hnext
          refine .kill rfl
            (registered_of_fail hid hundo hpushes hordered hnetns hstack ?_)
          intro hadd hmem
          rw [hmakes hadd]
          exact hlink hmem
  | refused hpc' _ _ _ _ =>
    rcases hpc' with hpc' | hpc'
    · cases hpc.symm.trans hpc'
    · cases hpc.symm.trans hpc'
  | kill hpc' | unwind hpc' => cases hpc.symm.trans hpc'

/-- jailer makes nothing that is not registered. -/
theorem Task.Stage.make (h : task.Stage before) (hvmm : task.vmm)
    (hkind : kind ≠ .link) : (task.make kind).Stage before := by
  cases h with
  | fresh _ _ _ _ hvmm' | refused _ _ _ hvmm' | unwind _ hvmm' => cases hvmm.symm.trans hvmm'
  | steps hpc hordered hnetns hstack hlink hfailed =>
    refine .steps hpc hordered hnetns hstack (fun hmem => ?_) hfailed
    exact (link_make hkind).trans (hlink hmem)
  | kill hpc hleft =>
    refine .kill hpc ⟨hleft.refused, hleft.covered, fun hearly => ?_⟩
    exact (hleft.kept hearly).imp_right (link_make hkind).trans

/-- An undo step that succeeds removes what it was registered for. -/
theorem Task.Registered.undo {object rest}
    (h : task.Registered before fun kind => (kind, task.id) ∈ task.host)
    (hundo : task.undo = object :: rest) :
    Task.Registered before { task with
      undo := rest
      host := task.host.filter (· ≠ object) } fun kind =>
        (kind, task.id) ∈ task.host.filter (· ≠ object) := by
  refine ⟨h.refused, fun kind hmem => ?_, fun hearly => ?_⟩
  · rw [mem_filter, decide_eq_true_eq] at hmem
    have hcovered := h.covered kind hmem.1
    rw [hundo, mem_cons] at hcovered
    exact hcovered.imp_left fun hor => hor.resolve_left hmem.2
  · obtain ⟨hnot, hsame⟩ := h.kept hearly
    rw [hundo, mem_cons, not_or] at hnot
    refine ⟨hnot.2, ?_⟩
    show (.link, task.id) ∈ task.host.filter (· ≠ object) ↔ _
    rw [mem_filter, decide_eq_true_eq, and_iff_left hnot.1, hsame]

theorem Task.Stage.step (h : task.Stage before) (hok : event ≠ .undo false)
    (hstep : task.step event = some next) : next.Stage before := by
  cases event with
  | command outcome =>
    simp only [step] at hstep
    split at hstep
    · rename_i todo hpc
      exact h.command hpc hstep
    · cases hstep
  | jailer kind =>
    obtain ⟨hlives, rfl⟩ := ite_some_none_eq_some.mp hstep
    simp only [Bool.and_eq_true, Bool.or_eq_true, decide_eq_true_eq] at hlives
    apply h.make hlives.1
    rintro rfl
    simp at hlives
  | exit =>
    obtain ⟨-, rfl⟩ := ite_some_none_eq_some.mp hstep
    cases h with
    | fresh hpc hordered hhost hundo hvmm hpushed hfailed =>
      exact .fresh hpc hordered hhost hundo rfl hpushed hfailed
    | steps hpc hordered hnetns hstack hlink hfailed =>
      exact .steps hpc hordered hnetns hstack hlink hfailed
    | refused hpc hhost hundo hvmm hrefused => exact .refused hpc hhost hundo rfl hrefused
    | kill hpc hleft => exact .kill hpc ⟨hleft.refused, hleft.covered, hleft.kept⟩
    | unwind hpc hvmm hleft =>
      exact .unwind hpc rfl ⟨hleft.refused, hleft.covered, hleft.kept⟩
  | ends =>
    obtain ⟨hup, rfl⟩ := ite_some_none_eq_some.mp hstep
    cases h with
    | fresh hpc | kill hpc | unwind hpc => cases hup.symm.trans hpc
    | @steps todo hpc hordered hnetns hstack hlink hfailed =>
      cases hup.symm.trans hpc
      have hundo : task.undo = undoSteps.map (·, task.id) := hstack
      refine .kill rfl ⟨?_, fun kind _ => .inl ?_, fun hearly => ?_⟩
      · simp [Task.refused, hfailed]
      · show (kind, task.id) ∈ task.undo
        rw [hundo]
        exact List.mem_map.mpr ⟨kind, by cases kind <;> decide, rfl⟩
      · simp [failedEarly, hfailed] at hearly
    | refused hpc _ _ _ _ =>
      rcases hpc with hpc | hpc
      · cases hup.symm.trans hpc
      · cases hup.symm.trans hpc
  | kill =>
    obtain ⟨hkill, rfl⟩ := ite_some_none_eq_some.mp hstep
    cases h with
    | fresh hpc | steps hpc | unwind hpc => cases hkill.symm.trans hpc
    | refused hpc hhost hundo hvmm hrefused => exact .refused (.inr rfl) hhost hundo rfl hrefused
    | kill hpc hleft =>
      refine .unwind rfl rfl ⟨hleft.refused, fun kind _ => ?_, hleft.kept⟩
      exact hleft.covered kind True.intro
  | undo ok =>
    cases ok with
    | false => exact absurd rfl hok
    | true =>
      simp only [step] at hstep
      split at hstep
      · rename_i object rest hpc hundo
        cases hstep
        cases h with
        | fresh hpc' | steps hpc' | kill hpc' => cases hpc.symm.trans hpc'
        | refused _ _ hundo' _ _ => cases hundo.symm.trans hundo'
        | unwind _ hvmm hleft => exact .unwind hpc hvmm (hleft.undo hundo)
      · cases hstep

/-- The name never changes, and nothing of another name does. -/
theorem Task.Own.step (h : task.Own before) (hstep : task.step event = some next) :
    next.id = task.id ∧ next.Own before := by
  have hmake {kind} (object : Object) (hne : object.2 ≠ task.id) :
      object ∈ (task.make kind).host ↔ object ∈ before := by
    rw [mem_make, ← h.others object hne]
    apply or_iff_right
    rintro rfl
    exact hne rfl
  cases event with
  | command outcome =>
    simp only [step] at hstep
    split at hstep
    · rename_i todo hpc
      cases todo with
      | nil => cases hstep
      | cons command rest =>
        obtain ⟨hid, hundo, -, hothers, -⟩ := task.apply_spec command
        have happlied : (task.apply command).Own before := by
          constructor
          · intro object hne
            rw [hid] at hne
            rw [hothers object hne, h.others object hne]
          · rw [hundo, hid]
            exact h.undo
        cases hpushes : command.pushes with
        | some kind =>
          simp only [Task.command, hpushes] at hstep
          cases hstep
          exact ⟨rfl, h.others, forall_mem_cons.mpr ⟨rfl, h.undo⟩⟩
        | none =>
          simp only [Task.command, hpushes] at hstep
          cases outcome with
          | ok | partly =>
            obtain ⟨-, hnext⟩ := ite_none_left_eq_some.mp hstep
            cases hnext
            exact ⟨hid, happlied.others, happlied.undo⟩
          | failed =>
            cases hstep
            exact ⟨rfl, h.others, h.undo⟩
    · cases hstep
  | jailer kind =>
    obtain ⟨-, rfl⟩ := ite_some_none_eq_some.mp hstep
    exact ⟨rfl, hmake, h.undo⟩
  | exit | ends | kill =>
    obtain ⟨-, rfl⟩ := ite_some_none_eq_some.mp hstep
    exact ⟨rfl, h.others, h.undo⟩
  | undo ok =>
    simp only [step] at hstep
    split at hstep
    · rename_i object rest hpc hundo
      cases hstep
      have hboth := h.undo
      rw [hundo, forall_mem_cons] at hboth
      refine ⟨rfl, fun other hne => ?_, hboth.2⟩
      have hother : other ≠ object := by
        rintro rfl
        exact hne hboth.1
      show other ∈ (if ok then task.host.filter (· ≠ object) else task.host) ↔ _
      rw [← h.others other hne]
      split
      · simp [hother]
      · rfl
    · cases hstep

end

/-! ## Whole lives -/

theorem Task.stage_begin (origin : Origin) (vmAddress : Ipv4Addr) (before : List Object) :
    (begin origin vmAddress before).Stage before := by
  cases origin with
  | start => exact .fresh rfl startSteps_ordered rfl rfl rfl pushed_startSteps rfl
  | wake => exact .fresh rfl wakeSteps_ordered rfl rfl rfl pushed_wakeSteps rfl
  | adopt => exact .steps rfl .nil not_mem_nil rfl (fun hmem => by cases hmem) rfl

theorem Task.own_begin (origin : Origin) (vmAddress : Ipv4Addr) (before : List Object) :
    (begin origin vmAddress before).Own before := by
  cases origin with
  | start | wake => exact ⟨fun _ _ => Iff.rfl, forall_mem_nil _⟩
  | adopt =>
    refine ⟨fun _ _ => Iff.rfl, fun object hmem => ?_⟩
    obtain ⟨kind, -, rfl⟩ := List.mem_map.mp hmem
    rfl

theorem Task.id_begin (origin : Origin) (vmAddress : Ipv4Addr) (before : List Object) :
    (begin origin vmAddress before).id = hostId vmAddress := by
  cases origin <;> rfl

section

variable {origin : Origin} {vmAddress : Ipv4Addr} {before : List Object} {schedule : List Event}
  {task : Task}

theorem Task.own_of_run (hrun : run step (begin origin vmAddress before) schedule = some task)
    :
    task.id = hostId vmAddress ∧ task.Own before := by
  let inv (task : Task) : Prop := task.id = hostId vmAddress ∧ task.Own before
  have hbegin : inv (begin origin vmAddress before) :=
    ⟨id_begin origin vmAddress before, own_begin origin vmAddress before⟩
  have hkeep {task event next} (h : inv task)
      (hstep : task.step event = some next) : inv next := by
    obtain ⟨hid, hown⟩ := h.2.step hstep
    exact ⟨hid.trans h.1, hown⟩
  exact run_preserves_all hkeep hbegin hrun

theorem Task.stage_of_run
    (hrun : run step (begin origin vmAddress before) schedule = some task)
    (hundo : ∀ event ∈ schedule, event ≠ .undo false) : task.Stage before := by
  apply run_preserves _ (stage_begin origin vmAddress before) (Along.of_forall _) hrun
  · exact fun _ event => event ≠ .undo false
  · intro task event next hok h hstep
    exact h.step hok hstep
  · intro event hevent _
    exact hundo event hevent

/-- When a start or a wake has failed, or a VM has ended, and every undo step succeeded, no
object of another name was touched. Either the namespace could not be made and the host is as it
was, or nothing of the VM's name is left, except where the start failed behind the namespace and
before the veth's undo step was pushed, and there was a veth of that name before. -/
theorem teardown_leaves_nothing_iff
    (hrun : run Task.step (Task.begin origin vmAddress before) schedule = some task)
    (hundo : ∀ event ∈ schedule, event ≠ .undo false) (hover : task.over = true) :
    (∀ object : Object, object.2 ≠ hostId vmAddress → (object ∈ task.host ↔ object ∈ before)) ∧
    (((task.refused = true ∧ task.host = before) ∨
        ∀ kind, (kind, hostId vmAddress) ∉ task.host) ↔
      ¬ (task.failedEarly = true ∧ (.link, hostId vmAddress) ∈ before)) := by
  obtain ⟨hid, hown⟩ := Task.own_of_run hrun
  simp only [Task.over, Bool.and_eq_true, decide_eq_true_eq, List.isEmpty_iff] at hover
  rw [← hid]
  refine ⟨hown.others, ?_⟩
  cases Task.stage_of_run hrun hundo with
  | fresh hpc | steps hpc | kill hpc => cases hover.1.symm.trans hpc
  | refused hpc hhost hundo hvmm hrefused =>
    have hearly : task.failedEarly = false := task.failedEarly_of_refused hrefused
    simp [hrefused, hhost, hearly]
  | unwind hpc hvmm hleft =>
    have hlink (kind : Undo) (hmem : (kind, task.id) ∈ task.host) :
        task.failedEarly ∧ kind = .link := by
      have hcovered := hleft.covered kind hmem
      rw [hover.2] at hcovered
      exact hcovered.resolve_left not_mem_nil
    simp only [hleft.refused, Bool.false_eq_true, false_and, false_or]
    constructor
    · rintro hgone ⟨hearly, hbefore⟩
      exact hgone .link ((hleft.kept hearly).2.mpr hbefore)
    · intro hnot kind hmem
      obtain ⟨hearly, rfl⟩ := hlink kind hmem
      exact hnot ⟨hearly, (hleft.kept hearly).2.mp hmem⟩

end

/-- A start at 10.77.0.2 that can't open its console log. -/
def noConsole : List Event :=
  List.replicate 5 (.command .ok) ++ [.command .failed, .kill, .undo true, .undo true, .undo true]

theorem failed_start_leaves_nothing :
    ∃ task, run Task.step (Task.begin .start 0x0A4D0002#32 [(.jail, "cirro-0002")])
        noConsole = some task ∧
      ∀ kind, (kind, hostId 0x0A4D0002#32) ∉ task.host := by
  obtain ⟨task, hrun, hover, hrefused⟩ : ∃ task,
      run Task.step (Task.begin .start 0x0A4D0002#32 [(.jail, "cirro-0002")])
        noConsole = some task ∧ task.over ∧ task.refused = false := ⟨_, rfl, by decide⟩
  have hleft := (teardown_leaves_nothing_iff hrun (by decide) hover).2.mpr (by simp)
  rw [hrefused] at hleft
  exact ⟨task, hrun, hleft.resolve_left (by simp)⟩

/-- The jail that an earlier VM left is removed, and its veth stays. -/
theorem failed_start_leaves_veth :
    ∃ task, run Task.step (Task.begin .start 0x0A4D0002#32
        [(.link, "cirro-0002"), (.jail, "cirro-0002")]) noConsole = some task ∧
      task.over = true ∧ task.refused = false ∧
      task.host = [(.link, hostId 0x0A4D0002#32)] := by
  exact ⟨_, rfl, by decide⟩

end Cirrocumulus.Teardown
