/-
# Every recorded App is listed

An App is recorded on a Machine that is recorded, and listed by that Machine's entry when
it has one. An agent that starts has no entries yet, and takes every recorded Machine with
its Apps on its list. So as long as each of them is set up and the entries are not let go,
what the entries list is all that is recorded.
-/

import Cirrocumulus.Ssh.Copies

namespace Cirrocumulus.Ssh

open Std (ExtTreeMap)
open Node (MachineAppRequest Outcome Route)
open Lib List Option

variable {name : Str} {record : MachineRecord} {item : MachineRecord × List (Str × Route)}
  {rest : List (MachineRecord × List (Str × Route))} {stored : Stored}

namespace Stored

/-- What the store keeps when there is no agent. -/
structure Sound (stored : Stored) : Prop where
  named : ∀ ⦃name : Str⦄ ⦃record⦄, stored.machines[name]? = some record →
    record.name = name
  parses : ∀ ⦃name : Str⦄ ⦃record⦄, stored.machines[name]? = some record →
    ∃ target, Target.parse record.ssh = .ok target
  appNamed : ∀ ⦃name : Str⦄ ⦃app⦄, stored.apps[name]? = some app →
    app.name = name
  /-- Every App is on a Machine that is recorded. -/
  known : ∀ ⦃name : Str⦄ ⦃app⦄, stored.apps[name]? = some app →
    app.machine ∈ stored.machines

/-- The Machine is recorded, and no App is on it. -/
structure Bare (stored : Stored) (record : MachineRecord) : Prop where
  recorded : stored.machines[record.name]? = some record
  empty : ∀ ⦃name : Str⦄ ⦃app⦄, stored.apps[name]? = some app →
    app.machine ≠ record.name

/-- The Apps with which a Machine is to be restored are those that are recorded on it. -/
structure Restores (stored : Stored) (item : MachineRecord × List (Str × Route)) : Prop where
  recorded : stored.machines[item.1.name]? = some item.1
  apps : ∀ name : Str, name ∈ item.2.map Prod.fst ↔
    ∃ app, stored.apps[name]? = some app ∧ app.machine = item.1.name

end Stored

/-- The Machine that an add is for. -/
def Adding.machine : Adding → Option MachineRecord
  | .pin pinned | .logIn pinned | .record pinned | .connect pinned => some pinned
  | .refused => none

/-- An App of the name is on the Machine. -/
def Known.Lists (known : Known) (name : Str) : Prop := (known.apps name).isSome = true

/-- A Machine that an add may connect to. -/
structure Fresh (memory : Str → Option Known) (record : MachineRecord) : Prop where
  unlisted : memory record.name = none
  parses : ∃ target, Target.parse record.ssh = .ok target

namespace Contents

variable (contents : Contents)

/-- What an add may be about. -/
structure Adds (adding : Adding) : Prop where
  isOpen : contents.restoring = []
  fresh : ∀ record, adding.machine = some record → Fresh contents.memory record
  bare : ∀ record, adding = .connect record → contents.stored.Bare record

/-- What the known hosts may be rewritten for. -/
def Rewrites : Rewrite → Prop
  | .pin record => contents.restoring = [] ∧ Fresh contents.memory record
  | .connect record apps =>
    (∃ rest, contents.restoring = (record, apps) :: rest) ∨
      contents.restoring = [] ∧ apps = [] ∧ Fresh contents.memory record ∧
        contents.stored.Bare record
  | .unpin | .remove => True

structure Kept : Prop where
  stored : contents.stored.Sound
  /-- Every entry's Machine is recorded. -/
  recorded : ∀ ⦃machine : Str⦄ ⦃known⦄, contents.memory machine = some known →
    machine ∈ contents.stored.machines
  /-- The entry of a Machine lists the Apps that are recorded on it. -/
  listed : ∀ ⦃name : Str⦄ ⦃app⦄ ⦃known⦄,
    contents.stored.apps[name]? = some app → contents.memory app.machine = some known →
      known.Lists name
  restoring : ∀ item ∈ contents.restoring, contents.stored.Restores item

/-- Every App that is recorded is on a Machine that has an entry or is to be restored. -/
def Covered : Prop :=
  ∀ ⦃name : Str⦄ ⦃app : MachineAppRecord⦄, contents.stored.apps[name]? = some app →
    (contents.memory app.machine).isSome ∨ ∃ item ∈ contents.restoring, item.1.name = app.machine

/-- A Machine-backed App has the name, in an entry or in the store. -/
def HasApp (name : Str) : Prop :=
  (∃ machine known, contents.memory machine = some known ∧ known.Lists name) ∨
    name ∈ contents.stored.apps

end Contents

structure Copies.Kept (copies : Copies) : Prop extends copies.toContents.Kept where
  adding : ∀ ⦃adding⦄, copies.adding = some adding → copies.Adds adding
  rewriting : ∀ ⦃rewrite⦄, copies.rewriting = some rewrite → copies.Rewrites rewrite

/-- The step adds an App of the name. -/
def Event.AddsApp (event : Event) (name : Str) : Prop :=
  ∃ request given outcome again, event = .addApp request given outcome again ∧ name = request.name

/-- No statement on the Machine tables fails and has its effect. -/
def Event.clean : Event → Bool
  | .remove _ outcome _ | .addApp _ _ outcome _ => outcome != .partly
  | _ => true

/-- A Machine that `restore` connects to is set up. -/
def Event.setsUp (isOpen : Bool) : Event → Bool
  | .restoreNext opens => opens
  | .writeKnownHosts written given => isOpen || written && given.toOption.isSome
  | _ => true

/-- Whether `connect` is given the App. -/
theorem Known.lists_given {apps} : (given record apps).Lists name ↔ name ∈ apps.map Prod.fst := by
  simp [Lists, given, Machine.known]

theorem Known.lists_setApp {known : Known} {app place} : (known.setApp app place).Lists name ↔
      if name = app then place.isSome = true else known.Lists name := by
  simp only [Lists, setApp, Function.update_apply]
  split <;> rfl

/-! ## One agent -/

namespace Copies.Kept

variable {copies next : Copies} {event : Event} {reply : Option Reply} {work : Work}
  {known : Known}

theorem not_restoring (hopen : copies.restoring = []) : item ∉ copies.restoring := by
  rw [hopen]
  exact not_mem_nil

section

variable (h : copies.Kept)
include h

/-- While Machines are restored, none is added. -/
theorem not_adding (hrestoring : copies.restoring = item :: rest)
    (adding : Adding) : copies.adding ≠ some adding := by
  intro hadding
  cases hrestoring.symm.trans (h.adding hadding).isOpen

/-- The Machine that is restored is the first of the list. -/
theorem restores_of_connecting {apps} (hrewriting : copies.rewriting = some (.connect record apps))
    (hrestoring : copies.restoring = item :: rest) :
    item = (record, apps) ∧ copies.stored.Restores (record, apps) := by
  rcases h.rewriting hrewriting with ⟨rest', hrest⟩ | ⟨hopen, -⟩
  · have hitem : item = (record, apps) := (List.cons.inj (hrestoring.symm.trans hrest)).1
    apply And.intro hitem
    apply h.restoring
    rw [hrest]
    exact mem_cons_self
  · cases hopen.symm.trans hrestoring

/-- The store, the entries and the list of what is to be restored stay. -/
theorem setAdding {adding rewriting}
    (hadding : ∀ ⦃next⦄, adding = some next → copies.Adds next)
    (hrewriting : rewriting = none ∨ rewriting = copies.rewriting) :
    ({ copies with adding, rewriting } : Copies).Kept := by
  refine ⟨h.toKept, hadding, fun rewrite hrewrite => ?_⟩
  rcases hrewriting with rfl | rfl
  · cases hrewrite
  · exact h.rewriting hrewrite

theorem rewrites {adding rewrite}
    (hadding : copies.adding = some adding) (hrewrite : adding.rewrite = some rewrite) :
    ({ copies with rewriting := some rewrite } : Copies).Kept := by
  have hadds := h.adding hadding
  refine ⟨h.toKept, h.adding, fun other hother => ?_⟩
  cases hother
  cases adding <;> cases hrewrite
  · exact ⟨hadds.isOpen, hadds.fresh _ rfl⟩
  · trivial
  · exact .inr ⟨hadds.isOpen, rfl, hadds.fresh _ rfl, hadds.bare _ rfl⟩

/-- A Machine that was to be restored is so no more. -/
theorem setRestoring (hrestoring : copies.restoring = item :: rest) :
    ({ copies with restoring := rest, rewriting := none } : Copies).Kept := by
  refine ⟨⟨h.stored, h.recorded, h.listed, fun other hother => ?_⟩, fun other hother => ?_, nofun⟩
  · apply h.restoring
    rw [hrestoring]
    exact mem_cons_of_mem item hother
  · exact absurd hother (h.not_adding hrestoring other)

/-- An entry is made for a Machine that lists what is recorded on it. -/
theorem setKnown (known : Known) (hrecorded : record.name ∈ copies.stored.machines)
    (hlisted : ∀ ⦃name : Str⦄ ⦃app⦄, copies.stored.apps[name]? = some app →
      app.machine = record.name → known.Lists name) :
    ({ copies.setKnown record.name (some known) with
      adding := none, rewriting := none } : Copies).Kept := by
  refine ⟨⟨h.stored, fun machine found hfound => ?_, fun name app found happ hfound => ?_,
    h.restoring⟩, nofun, nofun⟩
  · obtain ⟨rfl, -⟩ | ⟨-, hfound⟩ := of_update hfound
    · exact hrecorded
    · exact h.recorded hfound
  · obtain ⟨heq, ⟨⟩⟩ | ⟨-, hfound⟩ := of_update hfound
    · exact hlisted happ heq
    · exact h.listed happ hfound

theorem recordMachine {adding} (hadding : copies.adding = some (.record record))
    (hnew : copies.stored.machines[record.name]? = none)
    (hnext : ∀ next, adding = some next → next = .connect record) :
    ({ copies.setMachines (copies.stored.machines.insert record.name record) with
      adding } : Copies).Kept := by
  have hadds := h.adding hadding
  have hmono {name} (hname : name ∈ copies.stored.machines) :
      name ∈ copies.stored.machines.insert record.name record :=
    ExtTreeMap.mem_insert.mpr (.inr hname)
  have hnone : ∀ ⦃name : Str⦄ ⦃app⦄, copies.stored.apps[name]? = some app →
      app.machine ≠ record.name := by
    intro name app happ heq
    obtain ⟨found, hfound⟩ := mem_iff_lookup.mp (h.stored.known happ)
    cases hnew.symm.trans (heq ▸ hfound)
  refine ⟨⟨⟨fun name found hfound => ?_, fun name found hfound => ?_, h.stored.appNamed,
    fun name app happ => hmono (h.stored.known happ)⟩,
    fun machine known hknown => hmono (h.recorded hknown), h.listed,
    fun item hitem => absurd hitem (not_restoring hadds.isOpen)⟩, fun next hsome => ?_,
    fun rewrite hrewrite => ?_⟩
  · obtain ⟨rfl, rfl⟩ | ⟨-, hfound⟩ := of_lookup_insert hfound
    · rfl
    · exact h.stored.named hfound
  · obtain ⟨-, rfl⟩ | ⟨-, hfound⟩ := of_lookup_insert hfound
    · exact (hadds.fresh _ rfl).parses
    · exact h.stored.parses hfound
  · obtain rfl := hnext next hsome
    refine ⟨hadds.isOpen, fun other hother => ?_, fun other hother => ?_⟩
    · cases hother
      exact hadds.fresh record rfl
    · cases hother
      exact ⟨(lookup_insert ..).trans (if_pos rfl), hnone⟩
  · have hrewrites := h.rewriting hrewrite
    cases rewrite with
    | pin | unpin | remove => exact hrewrites
    | connect =>
      refine hrewrites.imp_right fun ⟨_, happs, hfresh, hbare⟩ => ?_
      refine ⟨hadds.isOpen, happs, hfresh, ?_, hbare.empty⟩
      refine (lookup_insert_of_ne _ fun heq => ?_).trans hbare.recorded
      cases hnew.symm.trans (heq ▸ hbare.recorded)

theorem remove {rewriting} (hopen : copies.restoring = [])
    (hknown : copies.memory name = some (.bare record)) (hadding : copies.adding = none)
    (hnext : ∀ rewrite, rewriting = some rewrite → rewrite = .remove) :
    ({ (copies.setMachines (copies.stored.machines.erase name)).change (.removeMachine name) with
      rewriting } : Copies).Kept := by
  have hmono {other} (hne : other ≠ name) (hother : other ∈ copies.stored.machines) :
      other ∈ copies.stored.machines.erase name := by
    rwa [mem_iff_lookup, lookup_erase_of_ne hne, ← mem_iff_lookup]
  -- No App is recorded on the Machine, since its entry lists none.
  have hne ⦃app : Str⦄ ⦃row⦄ (happ : copies.stored.apps[app]? = some row) :
      row.machine ≠ name := by
    intro heq
    cases h.listed happ (heq ▸ hknown)
  refine ⟨⟨⟨fun other found hfound => h.stored.named (of_lookup_erase hfound).2,
    fun other found hfound => h.stored.parses (of_lookup_erase hfound).2, h.stored.appNamed,
    fun app row happ => hmono (hne happ) (h.stored.known happ)⟩, fun machine found hfound => ?_,
    fun app row found happ hfound => ?_, fun item hitem => absurd hitem (not_restoring hopen)⟩,
    fun next hsome => ?_, fun rewrite hrewrite => ?_⟩
  · obtain ⟨-, ⟨⟩⟩ | ⟨heq, hfound⟩ := of_update hfound
    exact hmono heq (h.recorded hfound)
  · obtain ⟨-, ⟨⟩⟩ | ⟨-, hfound⟩ := of_update hfound
    exact h.listed happ hfound
  · cases hadding.symm.trans hsome
  · cases hnext _ hrewrite
    trivial

/-- An App is recorded on a Machine's entry that lists it. -/
theorem addApp {app : MachineAppRecord} {place} (hfree : copies.Free)
    (hknown : copies.memory app.machine = some known) :
    ((copies.setApps (copies.stored.apps.insert app.name app)).setKnown app.machine
      (some (known.setApp app.name (some place)))).Kept := by
  refine ⟨⟨⟨h.stored.named, h.stored.parses, fun other row hrow => ?_, fun other row hrow => ?_⟩,
    fun machine found hfound => ?_, fun other row found hrow hfound => ?_,
    fun item hitem => absurd hitem (not_restoring hfree.isOpen)⟩, fun next hsome => ?_,
    fun rewrite hrewrite => ?_⟩
  · obtain ⟨rfl, rfl⟩ | ⟨-, hrow⟩ := of_lookup_insert hrow
    · rfl
    · exact h.stored.appNamed hrow
  · obtain ⟨-, rfl⟩ | ⟨-, hrow⟩ := of_lookup_insert hrow
    · exact h.recorded hknown
    · exact h.stored.known hrow
  · obtain ⟨rfl, -⟩ | ⟨-, hfound⟩ := of_update hfound
    · exact h.recorded hknown
    · exact h.recorded hfound
  · obtain ⟨heq, ⟨⟩⟩ | ⟨hne, hfound⟩ := of_update hfound
    · rw [Known.lists_setApp]
      obtain ⟨rfl, -⟩ | ⟨hother, hrow⟩ := of_lookup_insert hrow
      · rw [if_pos rfl]
        rfl
      · rw [if_neg hother]
        exact h.listed hrow (heq ▸ hknown)
    · obtain ⟨-, rfl⟩ | ⟨-, hrow⟩ := of_lookup_insert hrow
      · exact absurd rfl hne
      · exact h.listed hrow hfound
  · -- The Machine that is added has no entry, so the App is not on it.
    have hadds := h.adding hsome
    have hne {record} (hfresh : Fresh copies.memory record) :
        app.machine ≠ record.name := by
      intro heq
      cases hfresh.unlisted.symm.trans (heq ▸ hknown)
    refine ⟨hfree.isOpen, fun record hrecord => ?_, fun record hrecord => ?_⟩
    · have hfresh := hadds.fresh record hrecord
      refine ⟨?_, hfresh.parses⟩
      exact (Function.update_of_ne (hne hfresh).symm _ _).trans hfresh.unlisted
    · have hbare := hadds.bare record hrecord
      have hfresh := hadds.fresh record (hrecord ▸ rfl)
      refine ⟨hbare.recorded, fun other row hrow => ?_⟩
      obtain ⟨-, rfl⟩ | ⟨-, hrow⟩ := of_lookup_insert hrow
      · exact hne hfresh
      · exact hbare.empty hrow
  · cases hfree.unlocked.symm.trans hrewrite

/-- An App's record goes, and no other App from the entries. -/
theorem eraseApp {memory} (hfree : copies.Free)
    (hsome : ∀ machine, (memory machine).isSome = (copies.memory machine).isSome)
    (hlists : ∀ ⦃machine found found'⦄, copies.memory machine = some found →
      memory machine = some found' → ∀ other, found.Lists other → other ≠ name →
        found'.Lists other) :
    ({ copies.setApps (copies.stored.apps.erase name) with memory } : Copies).Kept := by
  have hbefore {machine found'} (hfound : memory machine = some found') :
      ∃ found, copies.memory machine = some found := by
    apply isSome_iff_exists.mp
    rw [← hsome, hfound]
    rfl
  have hfresh {record} (hfresh : Fresh copies.memory record) :
      Fresh memory record := by
    refine ⟨?_, hfresh.parses⟩
    rw [← not_isSome_iff_eq_none, hsome, hfresh.unlisted]
    simp
  refine ⟨⟨⟨h.stored.named, h.stored.parses,
    fun other row hrow => h.stored.appNamed (of_lookup_erase hrow).2,
    fun other row hrow => h.stored.known (of_lookup_erase hrow).2⟩, fun machine found hfound => ?_,
    fun other row found hrow hfound => ?_,
    fun item hitem => absurd hitem (not_restoring hfree.isOpen)⟩, fun next hnext => ?_,
    fun rewrite hrewrite => ?_⟩
  · obtain ⟨before, hbefore⟩ := hbefore hfound
    exact h.recorded hbefore
  · obtain ⟨before, hbefore⟩ := hbefore hfound
    obtain ⟨hne, hrow⟩ := of_lookup_erase hrow
    exact hlists hbefore hfound other (h.listed hrow hbefore) hne
  · have hadds := h.adding hnext
    exact ⟨hfree.isOpen, fun record hrecord => hfresh (hadds.fresh record hrecord),
      fun record hrecord => ⟨(hadds.bare record hrecord).recorded,
        fun other row hrow => (hadds.bare record hrecord).empty (of_lookup_erase hrow).2⟩⟩
  · cases hfree.unlocked.symm.trans hrewrite

theorem restores {apps} (hrestoring : copies.restoring = (record, apps) :: rest) :
    ({ copies with rewriting := some (.connect record apps) } : Copies).Kept := by
  refine ⟨h.toKept, h.adding, fun rewrite hrewrite => ?_⟩
  cases hrewrite
  exact .inl ⟨rest, hrestoring⟩

/-- The first Machine of the list is set up. -/
theorem restored {apps} (hrewriting : copies.rewriting = some (.connect record apps))
    (hrestoring : copies.restoring = item :: rest) :
    ({ copies.setKnown record.name (some (.given record apps)) with
      restoring := rest, rewriting := none } : Copies).Kept := by
  obtain ⟨rfl, hrestores⟩ := h.restores_of_connecting hrewriting hrestoring
  have hkept := (h.setRestoring hrestoring).setKnown (.given record apps)
    (mem_iff_lookup.mpr ⟨_, hrestores.recorded⟩) fun name app happ hmachine =>
      Known.lists_given.mpr ((hrestores.apps name).mpr ⟨app, happ, hmachine⟩)
  have hnone : copies.adding = none :=
    eq_none_iff_forall_ne_some.mpr (h.not_adding hrestoring)
  rw [← hnone] at hkept
  exact hkept

theorem loggedIn {accepted : Bool} (hadding : copies.adding = some (.logIn record)) :
    ({ copies with adding := some (if accepted then .record record else .refused) } :
      Copies).Kept := by
  have hadds := h.adding hadding
  refine h.setAdding (fun other hother => ?_) (.inr rfl)
  cases hother
  refine ⟨hadds.isOpen, fun found hfound => ?_, fun found hfound => ?_⟩
  · cases accepted
    · cases hfound
    · exact hadds.fresh found hfound
  · cases accepted <;> cases hfound

theorem removeApp {machine} (hfree : copies.Free) (hknown : copies.memory machine = some known) :
    ((copies.setApps (copies.stored.apps.erase name)).change (.removeApp machine name)).Kept := by
  simp only [change, Change.apply, setApps, hknown, map_some]
  refine h.eraseApp hfree (fun other => ?_) ?_
  · by_cases heq : other = machine
    · simp [heq, hknown]
    · rw [Function.update_of_ne heq]
  · intro other found found' hfound hfound' app happ hne
    obtain ⟨rfl, ⟨⟩⟩ | ⟨-, hfound'⟩ := of_update hfound'
    · cases hknown.symm.trans hfound
      rw [Known.lists_setApp, if_neg hne]
      exact happ
    · cases hfound.symm.trans hfound'
      exact happ

theorem disconnected : ({ copies with memory := fun _ => none } : Copies).Kept := by
  refine ⟨⟨h.stored, by rintro _ _ ⟨⟩, by rintro _ _ _ _ ⟨⟩, h.restoring⟩, fun other hother => ?_,
    fun rewrite hrewrite => ?_⟩
  · have hadds := h.adding hother
    exact ⟨hadds.isOpen, fun record hrecord => ⟨rfl, (hadds.fresh record hrecord).parses⟩,
      hadds.bare⟩
  · have hrewrites := h.rewriting hrewrite
    cases rewrite with
    | pin => exact ⟨hrewrites.1, rfl, hrewrites.2.parses⟩
    | connect =>
      exact hrewrites.imp_right fun ⟨hopen, happs, hfresh, hbare⟩ =>
        ⟨hopen, happs, ⟨rfl, hfresh.parses⟩, hbare⟩
    | unpin | remove => trivial

theorem step (hclean : event.clean) (hturn : copies.Turn event reply work next) : next.Kept := by
  cases hturn with
  | idle | unremoved | unaddedApp | keptApp => exact h
  | restores hrestoring => exact h.restores hrestoring
  | skips hrestoring hrewriting =>
    have hkept := h.setRestoring hrestoring
    rw [← hrewriting] at hkept
    exact hkept
  | @adds _ _ _ _ record target hfree _ hnew hparse =>
    refine h.setAdding (fun other hother => ?_) (.inr rfl)
    cases hother
    exact ⟨hfree.isOpen, fun found hfound => (Option.some.inj hfound) ▸ ⟨hnew, target, hparse⟩,
      nofun⟩
  | givesUp | unopened | unrecorded => exact h.setAdding nofun (.inr rfl)
  | rewrites hadding hrewrite => exact h.rewrites hadding hrewrite
  | @pinned given record hrewriting =>
    have hpinned := h.rewriting hrewriting
    refine h.setAdding (fun other hother => ?_) (.inl rfl)
    cases hother
    exact ⟨hpinned.1, fun found hfound => (Option.some.inj hfound) ▸ hpinned.2, nofun⟩
  | unpinned | unconnected => exact h.setAdding nofun (.inl rfl)
  | rewritten => exact h.setAdding (fun other hother => h.adding hother) (.inl rfl)
  | skipped hrewriting hrestoring => exact h.setRestoring hrestoring
  | restored hrewriting hrestoring => exact h.restored hrewriting hrestoring
  | connected hrewriting hopen =>
    rcases h.rewriting hrewriting with ⟨rest, hrest⟩ | ⟨-, -, -, hbare⟩
    · cases hopen.symm.trans hrest
    · exact h.setKnown _ (mem_iff_lookup.mpr ⟨_, hbare.recorded⟩)
        fun name app happ hmachine => absurd hmachine (hbare.empty happ)
  | loggedIn hadding => exact h.loggedIn hadding
  | recorded hadding hnew =>
    exact h.recordMachine hadding hnew fun next hnext => (Option.some.inj hnext).symm
  | halfRecorded hadding hnew => exact h.recordMachine hadding hnew nofun
  | removed hfree hadding hknown hnext =>
    refine h.remove hfree.isOpen hknown hadding fun rewrite hrewrite => ?_
    rw [hnext] at hrewrite
    split at hrewrite <;> cases hrewrite
    rfl
  | halfRemoved => cases hclean
  | @addedApp request given again outcome known hfree hknown =>
    let app : MachineAppRecord :=
      ⟨request.name, request.machine, request.route.host, request.route.port⟩
    have hmachine : copies.memory app.machine = some known := hknown
    simp only [change, Change.apply, setApps, hknown, map_some]
    exact h.addApp hfree hmachine
  | halfAdded => cases hclean
  | removedApp hfree hknown => exact h.removeApp hfree hknown
  | unrecordedApp hfree =>
    refine h.eraseApp hfree (fun _ => rfl) ?_
    intro machine found found' hfound hfound' app happ _
    cases hfound.symm.trans hfound'
    exact happ
  | disconnected => exact h.disconnected

end

end Copies.Kept

/-! ## What the entries list -/

namespace Copies

variable {copies next : Copies} {event : Event} {reply : Option Reply} {work : Work}
  {known : Known}

theorem isSome_update {memory : Str → Option Known} {machine : Str}
    (h : (memory machine).isSome) : (Function.update memory name (some known) machine).isSome := by
  rw [Function.update_apply]
  split
  · rfl
  · exact h

/-- The recorded Apps stay covered, as long as what is restored is set up. -/
theorem Kept.covered_step (hkept : copies.Kept) (h : copies.Covered) (hclean : event.clean)
    (hsets : event.setsUp copies.restoring.isEmpty) (hdisconnect : event ≠ .disconnectAll)
    (hturn : copies.Turn event reply work next) : next.Covered := by
  intro name app happ
  cases hturn with
  | idle | restores | adds | givesUp | unopened | rewrites | pinned | unpinned | rewritten
  | loggedIn | unrecorded | recorded | halfRecorded | unconnected | unremoved | unaddedApp
  | keptApp =>
    exact h happ
  | skips => cases hsets
  | @skipped written given record apps item rest hrewriting hrestoring hfails =>
    obtain ⟨rfl, hrestores⟩ := hkept.restores_of_connecting hrewriting hrestoring
    simp only [Event.setsUp, hrestoring, isEmpty_cons, Bool.false_or, Bool.and_eq_true]
      at hsets
    obtain ⟨target, htarget⟩ := hkept.stored.parses hrestores.recorded
    simp [startsTunnel, htarget, hsets] at hfails
    cases hfails
  | @restored given record apps item rest hrewriting hrestoring =>
    obtain ⟨rfl, hrestores⟩ := hkept.restores_of_connecting hrewriting hrestoring
    rcases h happ with hentry | ⟨found, hfound, hname⟩
    · exact .inl (isSome_update hentry)
    · rw [hrestoring] at hfound
      rcases mem_cons.mp hfound with rfl | hfound
      · simp [Copies.setKnown, ← hname]
      · exact .inr ⟨found, hfound, hname⟩
  | connected => exact (h happ).imp_left isSome_update
  | @removed removed opens record rewriting _ _ hknown =>
    have hne : app.machine ≠ removed := by
      intro heq
      cases hkept.listed happ (heq ▸ hknown)
    simp only [change, Change.apply, Function.update_of_ne hne]
    exact h happ
  | halfRemoved => cases hclean
  | @addedApp request given again outcome known hfree hknown =>
    simp only [change, Change.apply, setApps, hknown, map_some] at happ ⊢
    left
    obtain ⟨-, rfl⟩ | ⟨-, happ⟩ := of_lookup_insert happ
    · simp
    · rcases h happ with hentry | ⟨item, hitem, -⟩
      · exact isSome_update hentry
      · exact absurd hitem (Kept.not_restoring hfree.isOpen)
  | halfAdded => cases hclean
  | @removedApp removed machine given known hfree hknown =>
    simp only [change, Change.apply, setApps, hknown, map_some] at happ ⊢
    exact (h (of_lookup_erase happ).2).imp_left isSome_update
  | unrecordedApp => exact h (of_lookup_erase happ).2
  | disconnected => exact absurd rfl hdisconnect

/-- The list of what is to be restored never grows. -/
theorem Turn.restoring_nil (hturn : copies.Turn event reply work next) (h : copies.restoring = []) :
    next.restoring = [] := by
  cases hturn with
  | skips hrestoring | skipped _ hrestoring | restored _ hrestoring => cases h.symm.trans hrestoring
  | _ => exact h

theorem Turn.mem_apps (hturn : copies.Turn event reply work next)
    (hrow : name ∈ next.stored.apps) : name ∈ copies.stored.apps ∨ event.AddsApp name := by
  cases hturn with
  | addedApp | halfAdded =>
    rcases ExtTreeMap.mem_insert.mp hrow with heq | hrow
    · exact .inr ⟨_, _, _, _, rfl, (Std.compare_eq_iff_eq.mp heq).symm⟩
    · exact .inl hrow
  | removedApp | unrecordedApp => exact .inl (ExtTreeMap.mem_of_mem_erase hrow)
  | _ => exact .inl hrow

/-- Only `add_app` takes a name that no App has. -/
theorem Kept.hasApp_of_turn (h : copies.Kept) (hturn : copies.Turn event reply work next)
    (happ : next.HasApp name) : copies.HasApp name ∨ event.AddsApp name := by
  rcases happ with ⟨machine, known, hknown, hname⟩ | hrow
  · -- Only one entry changes.
    have hchanged {key entry}
        (hknown : Function.update copies.memory key entry machine = some known)
        (hentry : entry = some known → copies.HasApp name ∨ event.AddsApp name) :
        copies.HasApp name ∨ event.AddsApp name := by
      obtain ⟨-, hnew⟩ | ⟨-, hold⟩ := of_update hknown
      · exact hentry hnew
      · exact .inl (.inl ⟨machine, known, hold, hname⟩)
    cases hturn with
    | restored hrewriting hrestoring =>
      obtain ⟨-, hrestores⟩ := h.restores_of_connecting hrewriting hrestoring
      refine hchanged hknown fun hentry => ?_
      cases hentry
      obtain ⟨app, happ, -⟩ := (hrestores.apps name).mp (Known.lists_given.mp hname)
      exact .inl (.inr (mem_iff_lookup.mpr ⟨app, happ⟩))
    | connected hrewriting hopen =>
      refine hchanged hknown fun hentry => ?_
      cases hentry
      rcases h.rewriting hrewriting with ⟨rest, hrest⟩ | ⟨-, rfl, -, -⟩
      · cases hopen.symm.trans hrest
      · cases Known.lists_given.mp hname
    | removed => exact hchanged hknown nofun
    | addedApp _ hlisted | removedApp _ hlisted =>
      simp only [change, Change.apply, setApps, hlisted, map_some] at hknown
      refine hchanged hknown fun hentry => ?_
      cases hentry
      rw [Known.lists_setApp] at hname
      split at hname
      case isTrue heq => first | exact .inr ⟨_, _, _, _, rfl, heq⟩ | cases hname
      case isFalse => exact .inl (.inl ⟨_, _, hlisted, hname⟩)
    | disconnected => cases hknown
    | _ => exact .inl (.inl ⟨machine, known, hknown, hname⟩)
  · exact (hturn.mem_apps hrow).imp_left .inr

/-- When nothing is left to be restored, the entries list every App there is. -/
theorem Kept.listed_of_hasApp (hkept : copies.Kept) (h : copies.Covered)
    (hopen : copies.restoring = []) (happ : copies.HasApp name) :
    ∃ machine known, copies.memory machine = some known ∧ known.Lists name := by
  rcases happ with hentry | hrow
  · exact hentry
  · obtain ⟨app, happ⟩ := mem_iff_lookup.mp hrow
    rcases h happ with hentry | ⟨item, hitem, -⟩
    · obtain ⟨known, hknown⟩ := isSome_iff_exists.mp hentry
      exact ⟨app.machine, known, hknown, hkept.listed happ hknown⟩
    · exact absurd hitem (Kept.not_restoring hopen)

end Copies

/-! ## An agent that starts -/

theorem Stored.Sound.restores (h : stored.Sound) (hrecord : stored.machines[name]? = some record) :
    stored.Restores (record, stored.appsOf record.name) := by
  refine ⟨(h.named hrecord).symm ▸ hrecord, fun app => ?_⟩
  simp only [appsOf, List.map_map, List.mem_map, mem_filter, Function.comp_apply,
    Prod.exists, mem_items, beq_iff_eq]
  constructor
  · rintro ⟨key, row, ⟨hrow, hmachine⟩, rfl⟩
    rw [h.appNamed hrow]
    exact ⟨row, hrow, hmachine⟩
  · rintro ⟨row, hrow, hmachine⟩
    exact ⟨app, row, ⟨hrow, hmachine⟩, h.appNamed hrow⟩

theorem Machines.memory_start (stored : Stored) (lines : List Str) (machine : Str) :
    (start stored lines).copies.memory machine = none := by
  simp [copies, memory, start]

/-- An agent starts with every recorded Machine on its list. -/
theorem Machines.kept_start (h : stored.Sound) (lines : List Str) :
    (start stored lines).copies.Kept := by
  refine ⟨⟨h, fun machine known hknown => ?_, fun name app known happ hknown => ?_,
    fun item hitem => ?_⟩, nofun, nofun⟩
  · cases (memory_start stored lines machine).symm.trans hknown
  · cases (memory_start stored lines app.machine).symm.trans hknown
  · obtain ⟨⟨name, record⟩, hmem, rfl⟩ := List.mem_map.mp hitem
    exact h.restores (mem_items.mp hmem)

theorem Machines.covered_start (h : stored.Sound) (lines : List Str) :
    (start stored lines).copies.Covered := by
  intro name app happ
  right
  obtain ⟨record, hrecord⟩ := mem_iff_lookup.mp (h.known happ)
  refine ⟨(record, stored.appsOf record.name), List.mem_map.mpr ⟨(app.machine, record), ?_, rfl⟩,
    h.named hrecord⟩
  exact mem_items.mpr hrecord

end Cirrocumulus.Ssh
