/-
# Operations on Machines, all or nothing

An operation on the Machines changes the entries and the store. It should make the same
change to both when it succeeds, and leave both alone when it returns an error. Adding and
removing an App is one step, with the entries locked. A Machine is removed from both while
the lock is held, and what becomes of the known hosts afterwards does not matter.

An add records its Machine, and connects to it afterwards. When it can't rewrite the known
hosts then, or finds no ports, it returns an error and the row stays. That is the only
operation that is not all or nothing.

A statement that fails has no effect here. An agent may end at any point, and the next one
starts with the rows that are there.
-/

import Cirrocumulus.Ssh.Recorded

namespace Cirrocumulus.Ssh

open Std (ExtTreeMap)
open Node (MachineAppRequest Outcome Route)
open Lib List Option

variable {copies next : Copies} {event : Event} {reply : Option Reply} {begun work : Work}
  {stored : Stored} {name : Str} {record : MachineRecord} {known : Known}

/-- No statement fails and has its effect. -/
def Event.definite : Event → Bool
  | .recordMachine outcome | .remove _ outcome _ | .addApp _ _ outcome _
  | .removeApp _ outcome _ => outcome != .partly
  | _ => true

theorem Event.clean_of_definite (h : event.definite) : event.clean := by
  cases event <;> first | rfl | exact h

/-! ## The entries are a part of the rows -/

/-- Every Machine in memory is recorded as it is, and so is each that is to be restored. -/
structure Copies.Mirrors (copies : Copies) : Prop where
  memory : ∀ ⦃name : Str⦄ ⦃known⦄, copies.memory name = some known →
    copies.stored.recorded name = some known
  restoring : ∀ item ∈ copies.restoring,
    copies.stored.recorded item.1.name = some (.given item.1 item.2)

/-- A Machine is restored with the Apps that are recorded on it. -/
theorem Stored.recorded_eq_given (h : stored.Sound) (hrow : stored.machines[name]? = some record) :
    stored.recorded record.name = some (.given record (stored.appsOf record.name)) := by
  have hkeys : ((stored.appsOf record.name).map fun app =>
      (app.1, MachineApp.mk app.2 0)).map Prod.fst =
        (stored.apps.toList.filter fun app => app.2.machine == record.name).map Prod.fst := by
    simp only [appsOf, List.map_map]
    apply map_congr_left
    intro app happ
    exact h.appNamed (mem_items.mp (mem_filter.mp happ).1)
  have hnodup : (((stored.appsOf record.name).map fun app =>
      (app.1, MachineApp.mk app.2 0)).map Prod.fst).Nodup := by
    rw [hkeys]
    apply List.Nodup.sublist (filter_sublist.map Prod.fst)
    rw [ExtTreeMap.map_fst_toList_eq_keys]
    exact ExtTreeMap.nodup_keys
  have hlookup (app : Str) (found : MachineApp) :
      (ExtTreeMap.ofList ((stored.appsOf record.name).map fun app =>
        (app.1, MachineApp.mk app.2 0)) compare)[app]? = some found ↔
          ∃ row, stored.apps[app]? = some row ∧ row.machine = record.name ∧
            found = ⟨⟨row.host, row.port, none⟩, 0⟩ := by
    rw [lookup_ofList hnodup]
    simp only [appsOf, List.map_map, List.mem_map, mem_filter, Function.comp_apply,
      Prod.exists, mem_items, beq_iff_eq, Prod.mk.injEq]
    constructor
    · rintro ⟨key, row, ⟨hrow, hmachine⟩, hname, rfl⟩
      rw [h.appNamed hrow] at hname
      exact ⟨row, hname ▸ hrow, hmachine, rfl⟩
    · rintro ⟨row, hrow, hmachine, rfl⟩
      exact ⟨app, row, ⟨hrow, hmachine⟩, h.appNamed hrow, rfl⟩
  have hname : record.name = name := h.named hrow
  rw [recorded, hname, hrow, map_some]
  refine congrArg (fun apps => some (Known.mk record apps)) (funext fun app => ?_)
  apply Option.ext
  intro place
  rw [hname] at hlookup
  simp only [map_eq_some_iff, filter_eq_some_iff, hlookup, beq_iff_eq]
  constructor
  · rintro ⟨row, ⟨hrow, hmachine⟩, rfl⟩
    exact ⟨_, ⟨row, hrow, hmachine, rfl⟩, rfl⟩
  · rintro ⟨_, ⟨row, hrow, hmachine, rfl⟩, rfl⟩
    exact ⟨row, ⟨hrow, hmachine⟩, rfl⟩

theorem Stored.Bare.recorded_eq (h : stored.Bare record) :
    stored.recorded record.name = some (.bare record) := by
  rw [Stored.recorded, h.recorded, map_some]
  refine congrArg (fun apps => some (Known.mk record apps)) (funext fun app => ?_)
  rw [map_eq_none_iff, filter_eq_none_iff]
  intro row hrow
  simpa using h.empty hrow

theorem Stored.recorded_insertMachine (h : stored.Sound)
    (hnew : stored.machines[record.name]? = none) :
    recorded { stored with machines := stored.machines.insert record.name record } =
      Change.apply stored.recorded (.addMachine record) := by
  funext other
  rw [Change.apply, Function.update_apply]
  split
  · rename_i heq
    subst heq
    apply Stored.Bare.recorded_eq
    refine ⟨(lookup_insert ..).trans (if_pos rfl), fun name app happ heq => ?_⟩
    obtain ⟨found, hfound⟩ := mem_iff_lookup.mp (h.known happ)
    cases hnew.symm.trans (heq ▸ hfound)
  · rename_i hne
    simp only [recorded, lookup_insert_of_ne _ hne]

theorem Stored.recorded_eraseMachine (stored : Stored) (name : Str) :
    recorded { stored with machines := stored.machines.erase name } =
      Change.apply stored.recorded (.removeMachine name) := by
  funext other
  simp only [Change.apply, Function.update_apply, recorded, lookup_erase]
  split <;> rfl

/-- A row of an App changes what is known of its Machine, and of no other. -/
theorem Stored.recorded_setApp {apps machine place}
    (hself : (apps[name]?.filter fun row => row.machine == machine).map
      (fun row => (row.host, row.port)) = place) (hother : ∀ other, other ≠ machine →
      (apps[name]?.filter fun row => row.machine == other) =
        stored.apps[name]?.filter fun row => row.machine == other)
    (hkept : ∀ app, app ≠ name → apps[app]? = stored.apps[app]?) :
    recorded { stored with apps } = Function.update stored.recorded machine
      ((stored.recorded machine).map (·.setApp name place)) := by
  funext other
  rw [Function.update_apply]
  split
  · rename_i heq
    subst heq
    simp only [recorded, Option.map_map]
    congr 1
    funext record
    refine congrArg (Known.mk record) (funext fun app => ?_)
    dsimp only
    rw [Function.update_apply]
    split
    · rename_i heq
      rw [heq, hself]
    · rename_i hne
      rw [hkept app hne]
  · rename_i hne
    simp only [recorded]
    congr 1
    funext record
    refine congrArg (Known.mk record) (funext fun app => ?_)
    by_cases heq : app = name
    · rw [heq, hother other hne]
    · rw [hkept app heq]

theorem Known.given_nil (record : MachineRecord) : given record [] = bare record := by
  simp [given, bare, Machine.known]

/-! ## What a turn does to each copy -/

namespace Copies.Turn

variable (h : copies.Turn event reply work next)
include h

/-- The entries change as an operation says. -/
theorem memory_eq (hkept : copies.Kept)
    (hopen : copies.restoring = []) (hevent : event ≠ .disconnectAll) :
    next.memory = work.memory.foldl Change.apply copies.memory := by
  cases h with
  | disconnected => exact absurd rfl hevent
  | restores hrestoring | skips hrestoring | restored hrewriting hrestoring
  | skipped hrewriting hrestoring =>
    cases hopen.symm.trans hrestoring
  | @connected given record apps hrewriting hopen =>
    rcases hkept.rewriting hrewriting with ⟨rest, hrest⟩ | ⟨-, rfl, -⟩
    · cases hopen.symm.trans hrest
    · rw [Known.given_nil]
      rfl
  | _ => rfl

/-- So do the rows. -/
theorem recorded_eq (hkept : copies.Kept) (hmirrors : copies.Mirrors) (hdefinite : event.definite) :
    next.stored.recorded = work.store.foldl Change.apply copies.stored.recorded := by
  cases h with
  | halfRecorded | halfRemoved | halfAdded | unrecordedApp => cases hdefinite
  | recorded hadding hnew => exact Stored.recorded_insertMachine hkept.stored hnew
  | removed => exact Stored.recorded_eraseMachine _ _
  | @addedApp request given again outcome known hfree hknown hnew =>
    have hrow := lookup_insert copies.stored.apps request.name
      (MachineAppRecord.mk request.name request.machine request.route.host request.route.port)
    apply Stored.recorded_setApp
    · rw [hrow, if_pos rfl]
      simp
    · intro other hne
      rw [hrow, if_pos rfl, hnew]
      simpa using hne.symm
    · intro app hne
      rw [hrow, if_neg hne]
  | @removedApp name machine given known hfree hknown hlisted =>
    have hrow := lookup_erase copies.stored.apps name
    have howner {row} (hrow : copies.stored.apps[name]? = some row) :
        row.machine = machine := by
      obtain ⟨record, -, rfl⟩ := map_eq_some_iff.mp (hmirrors.memory hknown)
      rw [isSome_map, hrow] at hlisted
      simpa using hlisted
    apply Stored.recorded_setApp
    · rw [hrow, if_pos rfl]
      rfl
    · intro other hne
      rw [hrow, if_pos rfl]
      cases happ : copies.stored.apps[name]? with
      | none => rfl
      | some row => simp [Option.filter, howner happ, hne.symm]
    · intro app hne
      rw [hrow, if_neg hne]
  | _ => rfl

/-- Rows that the operation has not changed stay. -/
theorem stored_eq (hdefinite : event.definite)
    (hstore : work.store = []) : next.stored = copies.stored := by
  cases h with
  | halfRecorded | halfRemoved | halfAdded | unrecordedApp => cases hdefinite
  | recorded | removed | addedApp | removedApp => cases hstore
  | _ => rfl

end Copies.Turn

/-- One change of both copies. -/
theorem Change.apply_mono {copy other} (change : Change)
    (h : ∀ ⦃name known⦄, copy name = some known → other name = some known) ⦃name : Str⦄
    ⦃known⦄ (hknown : change.apply copy name = some known) :
    change.apply other name = some known := by
  cases change with
  | addMachine | removeMachine =>
    obtain ⟨rfl, hnew⟩ | ⟨hne, hold⟩ := of_update hknown
    · exact (Function.update_self ..).trans hnew
    · exact (Function.update_of_ne hne _ _).trans (h hold)
  | addApp | removeApp =>
    obtain ⟨rfl, hnew⟩ | ⟨hne, hold⟩ := of_update hknown
    · obtain ⟨old, hold, rfl⟩ := map_eq_some_iff.mp hnew
      exact (Function.update_self ..).trans (by rw [h hold]; rfl)
    · exact (Function.update_of_ne hne _ _).trans (h hold)

theorem Copies.Mirrors.turn (h : copies.Mirrors) (hturn : copies.Turn event reply work next)
    (hkept : copies.Kept) (hdefinite : event.definite) : next.Mirrors := by
  have hrecorded := hturn.recorded_eq hkept h hdefinite
  have hboth (change : Change) (hmemory : next.memory = change.apply copies.memory)
      (hstored : next.stored.recorded = change.apply copies.stored.recorded)
      (hopen : next.restoring = []) : next.Mirrors := by
    refine ⟨?_, fun item hitem => absurd hitem (Copies.Kept.not_restoring hopen)⟩
    rw [hmemory, hstored]
    exact Change.apply_mono change h.memory
  have hset {record : MachineRecord} {known : Known}
      (hknown : copies.stored.recorded record.name = some known) ⦃name : Str⦄ ⦃found : Known⦄
      (hfound : (copies.setKnown record.name (some known)).memory name = some found) :
      copies.stored.recorded name = some found := by
    obtain ⟨rfl, ⟨⟩⟩ | ⟨-, hfound⟩ := of_update hfound
    · exact hknown
    · exact h.memory hfound
  have hrest {item rest} (hrestoring : copies.restoring = item :: rest) :
      ∀ item ∈ rest, copies.stored.recorded item.1.name = some (.given item.1 item.2) := by
    intro item hitem
    apply h.restoring
    rw [hrestoring]
    exact mem_cons_of_mem _ hitem
  cases hturn with
  | halfRecorded | halfRemoved | halfAdded | unrecordedApp => cases hdefinite
  | @restored _ record apps item rest hrewriting hrestoring =>
    obtain ⟨rfl, -⟩ := hkept.restores_of_connecting hrewriting hrestoring
    have hhead := h.restoring (record, apps) (by rw [hrestoring]; exact mem_cons_self)
    exact ⟨hset hhead, hrest hrestoring⟩
  | skips hrestoring | skipped _ hrestoring => exact ⟨h.memory, hrest hrestoring⟩
  | disconnected => exact ⟨fun _ _ hknown => (some_ne_none _ hknown.symm).elim, h.restoring⟩
  | @recorded record hadding hnew =>
    -- The Machine has no entry yet.
    have hadds := hkept.adding hadding
    have hunlisted : copies.memory record.name = none := (hadds.fresh record rfl).unlisted
    refine ⟨fun name known hknown => ?_,
      fun item hitem => absurd hitem (Copies.Kept.not_restoring hadds.isOpen)⟩
    rw [hrecorded]
    refine (Function.update_of_ne ?_ _ _).trans (h.memory hknown)
    rintro rfl
    cases hunlisted.symm.trans hknown
  | connected hrewriting hopen =>
    rcases hkept.rewriting hrewriting with ⟨rest, hrest⟩ | ⟨-, rfl, -, hbare⟩
    · cases hopen.symm.trans hrest
    · rw [Known.given_nil]
      exact ⟨hset hbare.recorded_eq, h.restoring⟩
  | @removed name _ _ _ hfree => exact hboth (.removeMachine name) rfl hrecorded hfree.isOpen
  | addedApp hfree => exact hboth (.addApp ..) rfl hrecorded hfree.isOpen
  | removedApp hfree => exact hboth (.removeApp ..) rfl hrecorded hfree.isOpen
  | _ => exact ⟨h.memory, h.restoring⟩

/-! ## Operations -/

/-- An operation that has returned, with what it has changed. -/
structure Returned where
  reply : Reply
  work : Work
  deriving DecidableEq

/-- An error changes nothing, and a success makes one change to each copy. -/
def Returned.Atomic (returned : Returned) : Prop :=
  match returned.reply with
  | .error => returned.work = .nothing
  | .ok => ∃ change, returned.work = .both change

def Work.append (begun work : Work) : Work :=
  ⟨begun.memory ++ work.memory, begun.store ++ work.store⟩

/-- The step is a whole operation. -/
def Event.ofApp : Event → Bool
  | .addApp .. | .removeApp .. => true
  | _ => false

/-- The Machines of a Node, and the operations on them. -/
structure Operations where
  machines : Machines
  /-- What the add or the remove that holds the lock of adds has changed. -/
  begun : Work
  /-- The latest first. -/
  returned : List Returned

inductive Operations.Event
  | step (event : Ssh.Event)
  /-- The agent ends, and another starts with what it finds. -/
  | restart (lines : List Str)

def Operations.Event.definite : Operations.Event → Bool
  | .step event => event.definite
  | .restart _ => true

namespace Operations

/-- A new Node. -/
def start (lines : List Str) : Operations := ⟨.start ⟨∅, ∅⟩ lines, .nothing, []⟩

variable (ops : Operations)

/-- What the operation of a step has changed, with this step. -/
def total (event : Ssh.Event) : Work :=
  if event.ofApp then ops.machines.work event else ops.begun.append (ops.machines.work event)

def step : Event → Option Operations
  | .step event =>
    (ops.machines.step event).map fun machines =>
      match ops.machines.reply event with
      | none => { ops with machines, begun := ops.begun.append (ops.machines.work event) }
      | some reply =>
        { machines
          begun := if event.ofApp then ops.begun else .nothing
          returned := ⟨reply, ops.total event⟩ :: ops.returned }
  | .restart lines =>
    some { ops with machines := .start ops.machines.stored lines, begun := .nothing }

/-- An add fails that has recorded its Machine. -/
def forsakes : Event → Bool
  | .step event =>
    !event.ofApp && ops.machines.reply event == some .error &&
      ops.machines.adding.any fun adding =>
        match adding with
        | .connect _ => true
        | _ => false
  | .restart _ => false

end Operations

/-! ## What an operation has changed so far -/

/-- Who rewrites the known hosts before anything has changed. -/
def Rewrite.Early (copies : Copies) : Rewrite → Prop
  | .pin record => copies.adding = none ∨ copies.adding = some (.pin record)
  | .unpin => copies.adding = some .refused
  | .connect _ _ => copies.adding = none ∧ copies.restoring ≠ []
  | .remove => False

/-- What was changed under the lock of adds. -/
inductive Accounts (copies : Copies) : Work → Prop
  | early (hadding : ∀ record, copies.adding ≠ some (.connect record))
      (hrewriting : ∀ rewrite, copies.rewriting = some rewrite → rewrite.Early copies) :
      Accounts copies .nothing
  | connecting {record : MachineRecord} (hopen : copies.restoring = [])
      (hadding : copies.adding = some (.connect record))
      (hrewriting : ∀ rewrite, copies.rewriting = some rewrite → rewrite = .connect record []) :
      Accounts copies ⟨[], [.addMachine record]⟩
  | removing {name : Str} (hopen : copies.restoring = []) (hadding : copies.adding = none)
      (hrewriting : copies.rewriting = some .remove) : Accounts copies (.both (.removeMachine name))

/-- What an operation answers, and what is then known of the lock's holder. -/
def Accounts.After (copies next : Copies) (event : Event) (begun work : Work) :
    Option Reply → Prop
  | none => Accounts next (begun.append work)
  | some reply =>
    if event.ofApp then Accounts next begun ∧ Returned.Atomic ⟨reply, work⟩
    else Accounts next .nothing ∧ (Returned.Atomic ⟨reply, begun.append work⟩ ↔
      ¬ (reply = .error ∧ ∃ record, copies.adding = some (.connect record)))

namespace Accounts

theorem of_eq (h : Accounts copies begun) (hadding : next.adding = copies.adding)
    (hrewriting : next.rewriting = copies.rewriting)
    (hrestoring : next.restoring = copies.restoring) : Accounts next begun := by
  obtain ⟨⟨stored, memory, restoring⟩, adding, rewriting⟩ := next
  dsimp only at hadding hrewriting hrestoring
  subst hadding hrewriting hrestoring
  cases h with
  | early hadding hrewriting =>
    refine .early hadding fun rewrite hrewrite => ?_
    have hearly := hrewriting rewrite hrewrite
    cases rewrite <;> exact hearly
  | connecting hopen hadding hrewriting => exact .connecting hopen hadding hrewriting
  | removing hopen hadding hrewriting => exact .removing hopen hadding hrewriting

/-- Nobody has the lock. -/
theorem free (hadding : copies.adding = none) (hrewriting : copies.rewriting = none) :
    Accounts copies .nothing := by
  apply early
  · intro record hsome
    cases hadding.symm.trans hsome
  · intro rewrite hsome
    cases hrewriting.symm.trans hsome

/-- While an add logs in or records its Machine, nobody rewrites the known hosts. -/
theorem unlocked (h : ∀ rewrite, copies.rewriting = some rewrite → rewrite.Early copies)
    {adding} (hadding : copies.adding = some adding) (hrewrite : adding.rewrite = none) :
    copies.rewriting = none := by
  rw [eq_none_iff_forall_ne_some]
  intro rewrite hsome
  have hearly := h rewrite hsome
  cases rewrite with
  | pin =>
    rcases hearly with hnone | hpin
    · cases hadding.symm.trans hnone
    · cases hadding.symm.trans hpin
      cases hrewrite
  | unpin =>
    cases hadding.symm.trans hearly
    cases hrewrite
  | connect => cases hadding.symm.trans hearly.1
  | remove => exact hearly

section

variable (hnext : Accounts next .nothing)
include hnext

/-- An operation fails that has changed nothing. -/
theorem after_error (hevent : event.ofApp = false)
    (hadding : ∀ record, copies.adding ≠ some (.connect record)) :
    After copies next event .nothing .nothing (some .error) := by
  rw [After, if_neg (by simp [hevent])]
  apply And.intro hnext
  apply iff_of_true rfl
  rintro ⟨-, record, hrecord⟩
  exact hadding record hrecord

theorem after_ok {change} (hevent : event.ofApp = false)
    (hwork : begun.append work = .both change) : After copies next event begun work (some .ok) := by
  rw [After, if_neg (by simp [hevent])]
  apply And.intro hnext
  apply iff_of_true ⟨change, hwork⟩
  rintro ⟨hreply, -⟩
  cases hreply

/-- The row stays. -/
theorem after_forsaken (hevent : event.ofApp = false)
    (hadding : copies.adding = some (.connect record)) :
    After copies next event ⟨[], [.addMachine record]⟩ .nothing (some .error) := by
  rw [After, if_neg (by simp [hevent])]
  apply And.intro hnext
  apply iff_of_false
  · intro hatomic
    cases hatomic
  · exact fun hnot => hnot ⟨rfl, record, hadding⟩

end

/-- Nothing has changed yet. -/
theorem turn_early (hadding : ∀ record, copies.adding ≠ some (.connect record))
    (hearly : ∀ rewrite, copies.rewriting = some rewrite → rewrite.Early copies)
    (hkept : copies.Kept) (hdefinite : event.definite)
    (hturn : copies.Turn event reply work next) : After copies next event .nothing work reply := by
  have h : Accounts copies .nothing := .early hadding hearly
  have hfree (hunlocked : next.rewriting = none)
      (hnone : ∀ record, next.adding ≠ some (.connect record)) : Accounts next .nothing :=
    .early hnone fun rewrite hrewrite => by cases hunlocked.symm.trans hrewrite
  cases hturn with
  | halfRecorded | halfRemoved | halfAdded | unrecordedApp => cases hdefinite
  | idle | disconnected => exact h.of_eq rfl rfl rfl
  | unaddedApp | keptApp => exact ⟨h, rfl⟩
  | addedApp | removedApp => exact ⟨h.of_eq rfl rfl rfl, _, rfl⟩
  | restores hrestoring =>
    refine .early hadding fun rewrite hrewrite => ?_
    cases hrewrite
    refine ⟨eq_none_iff_forall_ne_some.mpr (hkept.not_adding hrestoring), fun hnil => ?_⟩
    cases hrestoring.symm.trans hnil
  | skips hrestoring hunlocked => exact hfree hunlocked hadding
  | skipped | restored => exact hfree rfl hadding
  | adds hidle => exact hfree hidle.unlocked (by rintro record ⟨⟩)
  | pinned => exact hfree rfl (by rintro record ⟨⟩)
  | givesUp hgives =>
    refine after_error (.early (by rintro record ⟨⟩) fun rewrite hrewrite => ?_) rfl hadding
    have hearly := hearly rewrite hrewrite
    cases rewrite with
    | pin => exact .inl rfl
    | unpin => rcases hgives with hgives | hgives <;> cases hgives.symm.trans hearly
    | connect => rcases hgives with hgives | hgives <;> cases hgives.symm.trans hearly.1
    | remove => exact hearly.elim
  | unopened _ hunlocked => exact after_error (.free rfl hunlocked) rfl hadding
  | @rewrites adding rewrite hadds hrewrite =>
    refine .early hadding fun other hother => ?_
    cases hother
    cases adding <;> cases hrewrite
    · exact .inr hadds
    · exact hadds
    · exact absurd hadds (hadding _)
  | unpinned => exact after_error (.free rfl rfl) rfl hadding
  | @loggedIn accepted record hlogIn =>
    have hunlocked := unlocked hearly hlogIn rfl
    refine hfree hunlocked fun record hrecord => ?_
    cases accepted <;> cases hrecord
  | unrecorded hrecord =>
    have hunlocked := unlocked hearly hrecord rfl
    exact after_error (.free rfl hunlocked) rfl hadding
  | recorded hrecord =>
    refine .connecting (hkept.adding hrecord).isOpen rfl fun rewrite hrewrite => ?_
    cases (unlocked hearly hrecord rfl).symm.trans hrewrite
  | unconnected hrewriting hopen | connected hrewriting hopen =>
    exact absurd hopen (hearly _ hrewriting).2
  | unremoved hnone hunlocked => exact after_error (.free hnone hunlocked) rfl hadding
  | @removed name opens record rewriting hidle hnone hknown hnext =>
    cases opens with
    | true => exact .removing hidle.isOpen hnone hnext
    | false => exact after_ok (.free hnone hnext) rfl rfl
  | rewritten hrewriting => exact (hearly _ hrewriting).elim

/-- The Machine of the add is recorded. -/
theorem turn_connecting (hopen : copies.restoring = [])
    (hadding : copies.adding = some (.connect record))
    (hconnect : ∀ rewrite, copies.rewriting = some rewrite → rewrite = .connect record [])
    (hdefinite : event.definite) (hturn : copies.Turn event reply work next) :
    After copies next event ⟨[], [.addMachine record]⟩ work reply := by
  have h := connecting hopen hadding hconnect
  cases hturn with
  | halfRecorded | halfRemoved | halfAdded | unrecordedApp => cases hdefinite
  | idle | disconnected => exact h.of_eq rfl rfl rfl
  | unaddedApp | keptApp => exact ⟨h, rfl⟩
  | addedApp | removedApp => exact ⟨h.of_eq rfl rfl rfl, _, rfl⟩
  | restores hrestoring | skips hrestoring | skipped _ hrestoring | restored _ hrestoring =>
    cases hopen.symm.trans hrestoring
  | adds _ hother | loggedIn hother | unrecorded hother | recorded hother | unremoved hother
  | removed _ hother =>
    cases hadding.symm.trans hother
  | givesUp hother => rcases hother with hother | hother <;> cases hadding.symm.trans hother
  | unopened _ hunlocked => exact after_forsaken (.free rfl hunlocked) rfl hadding
  | rewrites hother hrewrite =>
    cases hadding.symm.trans hother
    cases hrewrite
    exact .connecting hopen hadding fun other hother => (Option.some.inj hother).symm
  | pinned hrewriting | rewritten hrewriting => cases hconnect _ hrewriting
  | unpinned hrewriting hrewrite =>
    obtain rfl := hconnect _ hrewriting
    rcases hrewrite with hrewrite | ⟨record, hrewrite⟩ <;> cases hrewrite
  | unconnected => exact after_forsaken (.free rfl rfl) rfl hadding
  | connected hrewriting =>
    cases hconnect _ hrewriting
    exact after_ok (.free rfl rfl) rfl rfl

/-- The Machine is gone from both copies. -/
theorem turn_removing (hopen : copies.restoring = []) (hadding : copies.adding = none)
    (hremove : copies.rewriting = some .remove) (hdefinite : event.definite)
    (hturn : copies.Turn event reply work next) :
    After copies next event (.both (.removeMachine name)) work reply := by
  have h := @removing copies name hopen hadding hremove
  cases hturn with
  | halfRecorded | halfRemoved | halfAdded | unrecordedApp => cases hdefinite
  | idle | disconnected => exact h.of_eq rfl rfl rfl
  | unaddedApp | keptApp => exact ⟨h, rfl⟩
  | addedApp | removedApp => exact ⟨h.of_eq rfl rfl rfl, _, rfl⟩
  | restores hrestoring | skips hrestoring | skipped _ hrestoring | restored _ hrestoring =>
    cases hopen.symm.trans hrestoring
  | unopened hother | rewrites hother | loggedIn hother | unrecorded hother | recorded hother =>
    cases hadding.symm.trans hother
  | givesUp hother => rcases hother with hother | hother <;> cases hadding.symm.trans hother
  | pinned hother | unconnected hother | connected hother | unremoved _ hother =>
    cases hremove.symm.trans hother
  | adds hfree | removed hfree => cases hremove.symm.trans hfree.unlocked
  | unpinned hother hrewrite =>
    cases hremove.symm.trans hother
    rcases hrewrite with hrewrite | ⟨record, hrewrite⟩ <;> cases hrewrite
  | rewritten => exact after_ok (.free hadding rfl) rfl rfl

theorem turn (h : Accounts copies begun) (hkept : copies.Kept) (hdefinite : event.definite)
    (hturn : copies.Turn event reply work next) : After copies next event begun work reply := by
  cases h with
  | early hadding hrewriting => exact turn_early hadding hrewriting hkept hdefinite hturn
  | connecting hopen hadding hrewriting =>
    exact turn_connecting hopen hadding hrewriting hdefinite hturn
  | removing hopen hadding hrewriting =>
    exact turn_removing hopen hadding hrewriting hdefinite hturn

end Accounts

/-! ## Every run -/

namespace Operations

variable {ops : Operations}

structure Sound (ops : Operations) : Prop where
  coherent : ops.machines.Coherent
  kept : ops.machines.copies.Kept
  mirrors : ops.machines.copies.Mirrors
  accounts : Accounts ops.machines.copies ops.begun

/-- An agent that starts. -/
theorem sound_start (h : stored.Sound) (lines : List Str) (returned : List Returned) :
    Sound ⟨.start stored lines, .nothing, returned⟩ where
  coherent := .start stored lines
  kept := Machines.kept_start h lines
  mirrors := by
    refine ⟨fun name known hknown => ?_, fun item hitem => ?_⟩
    · have hnone : (Machines.start stored lines).memory name = none := by
        simp [Machines.memory, Machines.start]
      cases hnone.symm.trans hknown
    · obtain ⟨⟨name, record⟩, hmem, rfl⟩ := List.mem_map.mp hitem
      exact Stored.recorded_eq_given h (mem_items.mp hmem)
  accounts := .free rfl rfl

theorem forsakes_eq_false {event reply} (hevent : event.ofApp = false)
    (hreply : ops.machines.reply event = some reply) : ops.forsakes (.step event) = false ↔
      ¬ (reply = .error ∧ ∃ record, ops.machines.adding = some (.connect record)) := by
  rw [forsakes, hevent, hreply]
  cases ops.machines.adding with
  | none => simp
  | some adding => cases adding <;> simp

theorem Sound.step (h : ops.Sound) {event later}
    (hdefinite : event.definite) (hstep : ops.step event = some later) :
    later.Sound ∧ ((∀ returned ∈ later.returned, returned.Atomic) ↔
      ops.forsakes event = false ∧ ∀ returned ∈ ops.returned, returned.Atomic) := by
  cases event with
  | restart lines =>
    cases hstep
    exact ⟨sound_start h.kept.stored lines _, by simp [forsakes]⟩
  | step event =>
    have hdefinite : event.definite := hdefinite
    obtain ⟨machines, hnext, rfl⟩ := map_eq_some_iff.mp hstep
    have hturn := Machines.turn_of_step h.coherent.wired.named hnext
    have hafter := h.accounts.turn h.kept hdefinite hturn
    have hsound := h.kept.step (Event.clean_of_definite hdefinite) hturn
    have hmirrors := h.mirrors.turn hturn h.kept hdefinite
    cases hreply : ops.machines.reply event with
    | none =>
      rw [hreply] at hafter
      exact ⟨⟨h.coherent.step hnext, hsound, hmirrors, hafter⟩, by simp [forsakes, hreply]⟩
    | some reply =>
      rw [hreply, Accounts.After] at hafter
      simp only [total, forall_mem_cons]
      cases hevent : event.ofApp with
      | true =>
        simp only [hevent, if_true] at hafter ⊢
        exact ⟨⟨h.coherent.step hnext, hsound, hmirrors, hafter.1⟩,
          by simp [forsakes, hevent, hafter.2]⟩
      | false =>
        simp only [hevent, Bool.false_eq_true, if_false] at hafter ⊢
        refine ⟨⟨h.coherent.step hnext, hsound, hmirrors, hafter.1⟩, ?_⟩
        rw [forsakes_eq_false hevent hreply, hafter.2]
        rfl

/-- Whether all operations of a run were all or nothing. -/
theorem atomic_iff (h : ops.Sound) {schedule later}
    (hdefinite : ∀ event ∈ schedule, event.definite)
    (hrun : run step ops schedule = some later) :
    later.Sound ∧ ((∀ returned ∈ later.returned, returned.Atomic) ↔
      Along step (fun ops event => ops.forsakes event = false) ops schedule ∧
        ∀ returned ∈ ops.returned, returned.Atomic) := by
  induction schedule generalizing ops with
  | nil =>
    cases hrun
    exact ⟨h, by simp [Along]⟩
  | cons event rest ih =>
    obtain ⟨next, hstep, hrest⟩ := run_cons_eq_some.mp hrun
    obtain ⟨hevent, hdefinite⟩ := forall_mem_cons.mp hdefinite
    obtain ⟨hnext, hlog⟩ := h.step hevent hstep
    obtain ⟨hlater, hall⟩ := ih hnext hdefinite hrest
    refine ⟨hlater, hall.trans ?_⟩
    rw [hlog]
    simp only [Along, hstep, Option.some.injEq, forall_eq']
    tauto

end Operations

/-- Every operation is all or nothing exactly when no add fails that has recorded its
Machine. A step changes each copy as the operation that it belongs to says, and every App
that is recorded is on a Machine that is. -/
theorem machine_operations_atomic {lines : List Str} {schedule : List Operations.Event}
    {ops : Operations} (hdefinite : ∀ event ∈ schedule, event.definite = true)
    (hrun : run Operations.step (.start lines) schedule = some ops) :
    ((∀ returned ∈ ops.returned, returned.Atomic) ↔
      Along Operations.step (fun ops event => ops.forsakes event = false) (.start lines)
        schedule) ∧
    (∀ event machines, event.definite = true → ops.machines.isOpen = true →
      event ≠ .disconnectAll → ops.machines.step event = some machines →
        machines.memory =
            (ops.machines.work event).memory.foldl Change.apply ops.machines.memory ∧
          machines.stored.recorded =
            (ops.machines.work event).store.foldl Change.apply ops.machines.stored.recorded ∧
          ((ops.machines.work event).store = [] → machines.stored = ops.machines.stored)) ∧
    (∀ (name : Str) (app : MachineAppRecord), ops.machines.stored.apps[name]? = some app →
      app.machine ∈ ops.machines.stored.machines) := by
  have hempty : (⟨∅, ∅⟩ : Stored).Sound := by
    constructor <;> intro name found hfound <;> simp at hfound
  obtain ⟨hsound, hatomic⟩ := Operations.atomic_iff
    (Operations.sound_start hempty lines []) hdefinite hrun
  refine ⟨?_, fun event machines hevent hopen hnot hstep => ?_, fun name app happ => ?_⟩
  · rw [hatomic]
    simp [Operations.start]
  · have hturn := Machines.turn_of_step hsound.coherent.wired.named hstep
    exact ⟨hturn.memory_eq hsound.kept (List.isEmpty_iff.mp hopen) hnot,
      hturn.recorded_eq hsound.kept hsound.mirrors hevent, hturn.stored_eq hevent⟩
  · exact hsound.kept.stored.known happ

/-- A Machine is added, and the agent can open the known hosts to connect to it or not. -/
def addsMachine (opens : Bool) : List Operations.Event :=
  [.step (.add "a" "root@a" "SHA256:a"
      [("ssh-ed25519 a", "SHA256:a")]),
    .step (.rewriteForAdd true), .step (.writeKnownHosts true (.ok [])), .step (.logIn true),
    .step (.recordMachine .ok), .step (.rewriteForAdd opens)]

/-- The Machine is connected to, and gets an App. -/
theorem added_machine_atomic : ∃ schedule ops,
    run Operations.step (.start []) (addsMachine true ++ schedule) = some ops ∧
      ops.returned.length = 2 ∧ ∀ returned ∈ ops.returned, returned.Atomic := by
  let schedule : List Operations.Event := [.step (.writeKnownHosts true (.ok [])),
    .step (.addApp ⟨"web", "a", ⟨"web.example", 80, none⟩⟩ (.ok [8080]) .ok
      (.ok []))]
  have hends : run Operations.step (.start []) (addsMachine true ++ schedule) = some _ := rfl
  refine ⟨schedule, _, hends, rfl, (machine_operations_atomic ?_ hends).1.mpr ?_⟩
  · decide
  · decide +kernel

/-- The add returns an error, and its Machine stays recorded without an entry. -/
theorem failed_add_leaves_row : ∃ ops,
    run Operations.step (.start []) (addsMachine false) = some ops ∧
      ops.returned.map Returned.reply = [.error] ∧
      ¬ (∀ returned ∈ ops.returned, returned.Atomic) ∧
      ops.machines.entries["a".toList]?.isNone = true ∧
      ops.machines.stored.machines.contains "a" = true := by
  refine ⟨_, rfl, rfl, fun hatomic => ?_, ?_, ?_⟩
  · have herror := hatomic _ mem_cons_self
    cases herror
  · decide
  · decide

end Cirrocumulus.Ssh
