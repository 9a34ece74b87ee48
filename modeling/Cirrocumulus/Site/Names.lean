/-
# Names of VMs and of Machine-backed Apps

A name is a VM's when the table or a row has it, and a Machine-backed App's when an entry
or a row has it. The two kinds of App share one space of names: `run_vm` looks whether an
entry of a Machine has the name, and `run_on_machine` whether the table has it. Neither
looks at the rows.

So a name is in danger when an App is recorded that no entry lists. `restore` goes on when
a Machine can't be set up, and `disconnect_all` takes all entries away while a request that
found the flag down is still to look at them.
-/

import Cirrocumulus.Site.Closing
import Cirrocumulus.Ssh.Recorded
import Cirrocumulus.Node.Restart

namespace Cirrocumulus

open Lib Option
open Std (ExtTreeMap)
open Node (System NodeEvent AgentProcess Subnet Standing Host RunRequest NameMove)

variable {subnet : Subnet} {site next : Site} {event : SiteEvent} {name : Str}

/-- A VM has the name, in the table or in the store. -/
def Node.System.HasVm (node : System) (name : Str) : Prop :=
  (∃ up, node.up = some up ∧ name ∈ up.agent.vms) ∨ name ∈ node.host.rows

/-- A Machine-backed App has the name, in an entry or in the store. -/
def Site.HasApp (site : Site) (name : Str) : Prop :=
  site.machines.apps.hasApp name = true ∨ name ∈ site.machines.stored.apps

/-! ## Names of VMs -/

namespace Node

variable {node after : System} {nodeEvent : NodeEvent} {s : Standing}

theorem System.not_mem_rows (h : ¬ node.HasVm name) : node.host.rows[name]? = none :=
  ExtTreeMap.getElem?_eq_none fun hmem => h (.inr hmem)

theorem System.not_hasVm (hrow : node.host.rows[name]? = none)
    (hentry : ∀ up, node.up = some up → up.agent.vms[name]? = none) : ¬ node.HasVm name := by
  rintro (⟨up, hup, hmem⟩ | hmem)
  · rw [ExtTreeMap.mem_iff_isSome_getElem?, hentry up hup] at hmem
    cases hmem
  · rw [ExtTreeMap.mem_iff_isSome_getElem?, hrow] at hmem
    cases hmem

/-- Where a Node stands with a name that no VM has. -/
theorem System.Reached.stands_of_not_hasVm (h : node.Reached subnet) (hfree : ¬ node.HasVm name)
    (hs : node.Stands name s) : s = .down ∨ s = .absent := by
  have hrow := not_mem_rows hfree
  cases hs with
  | down => exact .inl rfl
  | @up up _ hup hs =>
    have hentry (entry : Entry) : up.agent.vms[name]? ≠ some entry := by
      intro hentry
      apply hfree
      left
      refine ⟨up, hup, ?_⟩
      rw [ExtTreeMap.mem_iff_isSome_getElem?, hentry]
      rfl
    have hsound := h.sound.up hup
    cases hs with
    | absent => exact .inr rfl
    | loading hrecord hname =>
      obtain ⟨row, hfound, -⟩ := hsound.todo.row hrecord
      rw [hname, hrow] at hfound
      cases hfound
    | ended hended => exact absurd hended (hentry _)
    | launching hlaunch hname =>
      have hstarting := hsound.owned.launch_entry hlaunch
      rw [hname] at hstarting
      exact absurd hstarting (hentry _)
    | running hsup hrunning => exact absurd hrunning (hentry _)

theorem System.not_hasVm_of_stands (hrow : node.host.rows[name]? = none)
    (hs : node.Stands name s) (hfree : s = .down ∨ s = .absent) : ¬ node.HasVm name := by
  apply not_hasVm hrow
  intro up hup
  rcases hfree with rfl | rfl
  · cases hs with
    | down hdown => cases hdown.symm.trans hup
    | up _ hs => cases hs
  · cases hs with
    | up hup' hs =>
      cases hup.symm.trans hup'
      cases hs with
      | absent hentry => exact hentry

/-- A name that is free stays so, or a launch begins. -/
theorem NameMove.free {s'} (hfree : s = .down ∨ s = .absent)
    (hrow : node.host.rows[name]? = none) (hturn : NameMove node after name nodeEvent s s') :
    after.host.rows[name]? = none ∧ (s' = .down ∨ s' = .absent) ∨
      ∃ launch : Launch, launch.From nodeEvent := by
  have hsame (hhost : after.host = node.host) : after.host.rows[name]? = none := by
    rw [hhost]
    exact hrow
  cases hturn with
  | untouched h => exact .inl ⟨h.row.trans hrow, hfree⟩
  | down hhost => exact .inl ⟨hsame hhost, .inl rfl⟩
  | loaded hhost hfound => cases hrow.symm.trans hfound
  | unknown hhost => exact .inl ⟨hsame hhost, .inr rfl⟩
  | dropped hs hunowned hhost =>
    refine .inl ⟨?_, hfree⟩
    rw [hhost]
    exact hrow
  | begun hname hhost hup hready hreserves hfrom => exact .inr ⟨_, hfrom⟩
  | _ => rcases hfree with hs | hs <;> cases hs

/-- A name becomes a VM's by a request alone. -/
theorem System.Reached.hasVm_of_step (h : node.Reached subnet)
    (hbegins : ∀ launch : Launch, ¬ launch.From nodeEvent)
    (hstep : node.step subnet nodeEvent = some after) (hvm : after.HasVm name) :
    node.HasVm name := by
  by_contra hfree
  obtain ⟨s', hs'⟩ := (h.step hstep).exists_stands name
  obtain ⟨s, hs, hturn⟩ := h.nameMove hstep hs'
  have hstands := h.stands_of_not_hasVm hfree hs
  rcases hturn.free hstands (not_mem_rows hfree) with ⟨hrow, hleft⟩ | ⟨launch, hfrom⟩
  · exact not_hasVm_of_stands hrow hs' hleft hvm
  · exact hbegins launch hfrom

/-- The name that a request makes a VM's is no Machine-backed App's that an entry lists. -/
theorem AgentProcess.hasVm_of_request {host up} {request : Cirrocumulus.Request}
    (hstep : up.step subnet host request.event = some after) (hvm : after.HasVm name) :
    (⟨host, some up⟩ : System).HasVm name ∨
      (∃ run log, request = .run run log) ∧ up.agent.machines.hasApp name = false := by
  have hinserted {launch : Launch}
      (h : up.beginLaunch host (up.agent.reserve launch) = some after) :
      (⟨host, some up⟩ : System).HasVm name ∨ name = launch.name := by
    cases beginLaunch_reserve h
    rcases hvm with ⟨_, hup, hmem⟩ | hrow
    · cases hup
      rcases ExtTreeMap.mem_insert.mp hmem with heq | hmem
      · exact .inr (Std.compare_eq_iff_eq.mp heq).symm
      · exact .inl (.inl ⟨up, rfl, hmem⟩)
    · exact .inl (.inr hrow)
  cases request with
  | run run log =>
    obtain ⟨-, h⟩ := ite_none_right_eq_some.mp hstep
    obtain ⟨agent, hagent, h⟩ := bind_eq_some_iff.mp h
    obtain ⟨reserved, hspec, rfl⟩ := runVm_eq_ok (toOption_eq_some hagent)
    rcases hinserted h with hbefore | rfl
    · exact .inl hbefore
    · exact .inr ⟨⟨run, log, rfl⟩, hspec.not_app⟩
  | wake woken =>
    obtain ⟨-, h⟩ := ite_none_right_eq_some.mp hstep
    obtain ⟨agent, hagent, h⟩ := bind_eq_some_iff.mp h
    obtain ⟨reserved, hspec, rfl⟩ := wakeVm_eq_ok (toOption_eq_some hagent)
    rcases hinserted h with hbefore | rfl
    · exact .inl hbefore
    · refine .inl (.inl ⟨up, rfl, ExtTreeMap.mem_iff_isSome_getElem?.mpr ?_⟩)
      exact hspec.reserves.entry ▸ rfl

end Node

/-! ## One Site -/

theorem Site.hasApp_iff : site.HasApp name ↔ site.machines.copies.HasApp name :=
  or_congr_left Ssh.Machines.hasApp_apps_iff

def Request.isRun : Request → Bool
  | .run _ _ => true
  | .wake _ => false

/-- Every Machine that a start finds recorded is set up, no statement on the Machine tables
fails and has its effect, and `disconnect_all` comes when no `run` is about to look. -/
def Site.setsUp (site : Site) : SiteEvent → Bool
  | .machines event => event.clean && event.setsUp site.machines.isOpen
  | .runOnMachine request given outcome again =>
    (Ssh.Event.addApp request given outcome again).clean
  | .disconnectAll => !site.admitted.any Request.isRun
  | _ => true

def Site.SetsUp (site : Site) (event : SiteEvent) : Prop := site.setsUp event = true

instance (site : Site) (event : SiteEvent) : Decidable (site.SetsUp event) :=
  inferInstanceAs (Decidable (_ = _))

/-- `shutdown` has not let the Machines go. -/
def Shutdown.keepsMachines : Shutdown → Bool
  | .off | .flagged => true
  | .disconnected | .looked => false

/-- What holds of the two kinds of names. -/
structure Site.Apart (subnet : Subnet) (site : Site) : Prop where
  sound : site.Sound subnet
  coherent : site.machines.Coherent
  kept : site.machines.copies.Kept
  /-- The socket opens when every Machine was restored. -/
  isOpen : site.node.Ready → site.machines.restoring = []
  covered : site.shutdown.keepsMachines → site.machines.copies.Covered
  admitted : ∀ {run log}, site.admitted = some (.run run log) → site.shutdown.keepsMachines
  apart : ∀ {name}, site.node.HasVm name → ¬ site.HasApp name

namespace Site.Apart

theorem fresh (subnet : Subnet) : Site.fresh.Apart subnet := by
  have hstored : (⟨∅, ∅⟩ : Ssh.Stored).Sound := by
    constructor <;> simp
  refine ⟨.fresh subnet, .start _ _, Ssh.Machines.kept_start hstored [], ?_,
    fun _ => Ssh.Machines.covered_start hstored [], nofun, ?_⟩
  · rintro ⟨up, hup, -⟩
    cases hup
  · rintro name - happ
    rcases Site.hasApp_iff.mp happ with ⟨machine, names, hnames, -⟩ | hrow
    · cases (Ssh.Machines.memory_start _ _ machine).symm.trans hnames
    · exact absurd hrow ExtTreeMap.not_mem_empty

/-- The agent is gone, and the store is left. -/
theorem gone (h : site.Apart subnet) {host} (hsound : (site.gone host).Sound subnet)
    (hvm : ∀ {name}, (⟨host, none⟩ : System).HasVm name → site.node.HasVm name) :
    (site.gone host).Apart subnet := by
  refine ⟨hsound, .start _ _, Ssh.Machines.kept_start h.kept.stored _, ?_,
    fun _ => Ssh.Machines.covered_start h.kept.stored _, nofun, ?_⟩
  · rintro ⟨up, hup, -⟩
    cases hup
  · intro name hname happ
    apply h.apart (hvm hname)
    rcases Site.hasApp_iff.mp happ with ⟨machine, names, hnames, -⟩ | hrow
    · cases (Ssh.Machines.memory_start _ _ machine).symm.trans hnames
    · exact .inr hrow

/-- The Node takes a step that begins no launch, and its Machines stay. -/
theorem setNode (h : site.Apart subnet) {node} (hsound : ({ site with node } : Site).Sound subnet)
    (hready : node.Ready → site.machines.restoring = [])
    (hvm : ∀ {name}, node.HasVm name → site.node.HasVm name) :
    ({ site with node } : Site).Apart subnet :=
  ⟨hsound, h.coherent, h.kept, hready, h.covered, h.admitted, fun hname => h.apart (hvm hname)⟩

/-- The Machines take a step. -/
theorem setMachines (h : site.Apart subnet) {machines event}
    (hsound : ({ site with machines } : Site).Sound subnet) (hclean : event.clean)
    (hsets : event.setsUp site.machines.isOpen) (hdisconnect : event ≠ .disconnectAll)
    (hstep : site.machines.step event = some machines)
    (happ : ∀ {name}, event.AddsApp name → ¬ site.node.HasVm name) :
    ({ site with machines } : Site).Apart subnet := by
  have hturn := Ssh.Machines.turn_of_step h.coherent.wired.named hstep
  refine ⟨hsound, h.coherent.step hstep, h.kept.step hclean hturn, fun hready => ?_,
    fun hkeeps => h.kept.covered_step (h.covered hkeeps) hclean hsets hdisconnect hturn,
    h.admitted, ?_⟩
  · exact hturn.restoring_nil (h.isOpen hready)
  · intro name hname hafter
    rcases h.kept.hasApp_of_turn hturn (Site.hasApp_iff.mp hafter) with hbefore | hadds
    · exact h.apart hname (Site.hasApp_iff.mpr hbefore)
    · exact happ hadds hname

/-- `run_on_machine` takes a name that no VM has. -/
theorem not_hasVm_of_allowsApp (h : site.Sound subnet) {request} (hidle : site.isIdle)
    (hallows : site.allowsApp request) : ¬ site.node.HasVm request.name := by
  obtain ⟨up, hup, hready⟩ := (any_eq_true _ _).mp (Bool.and_eq_true_iff.mp hidle).2
  have hboot := AgentProcess.isReady_iff.mp (Bool.and_eq_true_iff.mp hready).1
  have hentry : up.agent.vms[request.name]? = none := by
    obtain ⟨seen, hseen, hruns⟩ := (any_eq_true _ _).mp hallows
    simp only [System.seeing, hup, map_some, Option.some.injEq] at hseen
    subst hseen
    obtain ⟨agent, hagent⟩ := isSome_iff_exists.mp hruns
    obtain ⟨_, -, hagent⟩ := except_bind_eq_ok.mp (Node.toOption_eq_some hagent)
    obtain ⟨_, hagent, -⟩ := except_bind_eq_ok.mp hagent
    obtain ⟨_, hrefuse, -⟩ := except_bind_eq_ok.mp hagent
    apply ExtTreeMap.getElem?_eq_none
    intro hmem
    cases (ExtTreeMap.contains_iff_mem.mpr hmem).symm.trans (Node.refuseIf_eq_ok hrefuse)
  have hs : site.node.Stands request.name .absent := by
    apply System.Stands.up hup
    apply AgentProcess.Stands.absent hentry
    rw [hboot]
    exact List.forall_mem_nil _
  exact System.not_hasVm_of_stands (h.recorded hs) hs (.inr rfl)

theorem ready_of_reserve {request : Request} {node}
    (hstep : (site.node.seeing site.machines.apps).step subnet request.event = some node) :
    site.node.Ready := by
  obtain ⟨up, hup, hstep⟩ := reserve_of_step hstep
  obtain ⟨launch, -, hready, -⟩ := AgentProcess.beginMove_of_request hstep
  exact ⟨up, hup, hready⟩

theorem hasVm_of_reserve {request : Request} {node}
    (hstep : (site.node.seeing site.machines.apps).step subnet request.event = some node)
    (hname : node.HasVm name) : site.node.HasVm name ∨
      (∃ run log, request = .run run log) ∧ site.machines.apps.hasApp name = false := by
  obtain ⟨up, hup, hstep⟩ := reserve_of_step hstep
  rcases AgentProcess.hasVm_of_request hstep hname with (⟨_, hseen, hmem⟩ | hrow) | hrun
  · cases hseen
    exact .inl (.inl ⟨up, hup, hmem⟩)
  · exact .inl (.inr hrow)
  · exact .inr hrun

theorem step (h : site.Apart subnet) (hok : site.SetsUp event)
    (hstep : site.step subnet event = some next) : next.Apart subnet := by
  have hsound := h.sound.step hstep
  have hreached := h.sound.reached
  cases Site.move_of_step hstep with
  | @node event node hown hlock hnode =>
    have hvm {name} (hname : node.HasVm name) : site.node.HasVm name :=
      hreached.hasVm_of_step (event.not_from_of_own hown) hnode hname
    have hready (hready : node.Ready) : site.machines.restoring = [] := by
      by_contra hclosed
      have hbefore : ¬ site.node.Ready := fun hready => hclosed (h.isOpen hready)
      refine hreached.sound.not_ready hbefore (fun machines hevent => ?_) hnode hready
      rw [hevent] at hown
      cases hown
    obtain ⟨host, up⟩ := node
    cases up with
    | none => exact h.gone hsound hvm
    | some up => exact h.setNode hsound hready hvm
  | machines hlets hmachines =>
    obtain ⟨hclean, hsets⟩ := Bool.and_eq_true_iff.mp hok
    refine h.setMachines hsound hclean hsets ?_ hmachines ?_
    · rintro rfl
      cases hlets
    · rintro name ⟨request, given, outcome, again, rfl, -⟩
      cases hlets
  | openSocket hopen hunlocked hnode =>
    refine h.setNode hsound (fun _ => ?_) fun hname =>
      hreached.hasVm_of_step (by rintro _ ⟨⟩) hnode hname
    exact List.isEmpty_iff.mp hopen
  | accept hidle hoff =>
    refine ⟨hsound, h.coherent, h.kept, h.isOpen, h.covered, fun _ => ?_, h.apart⟩
    rw [show site.shutdown = .off from hoff]
    rfl
  | @reserve request node hadmitted hnode =>
    have hbegan := ready_of_reserve hnode
    refine ⟨hsound, h.coherent, h.kept, fun _ => h.isOpen hbegan, h.covered, nofun, ?_⟩
    intro name hname happ
    rcases hasVm_of_reserve hnode hname with hbefore | ⟨⟨run, log, rfl⟩, hnone⟩
    · exact h.apart hbefore happ
    · have hcovered := h.covered (h.admitted hadmitted)
      have hlisted := h.kept.listed_of_hasApp hcovered (h.isOpen hbegan) (Site.hasApp_iff.mp happ)
      cases hnone.symm.trans (Ssh.Machines.hasApp_apps_iff.mpr hlisted)
  | refused hadmitted =>
    exact ⟨hsound, h.coherent, h.kept, h.isOpen, h.covered, nofun, h.apart⟩
  | @runOnMachine request given outcome again machines hidle hallows hmachines =>
    have hclean : (Ssh.Event.addApp request given outcome again).clean := hok
    refine h.setMachines hsound hclean rfl nofun hmachines ?_
    rintro name ⟨_, _, _, _, ⟨⟩, rfl⟩
    exact not_hasVm_of_allowsApp h.sound hidle hallows
  | setFlag hready hoff =>
    have hkeeps : site.shutdown.keepsMachines := by
      rw [hoff]
      rfl
    exact ⟨hsound, h.coherent, h.kept, h.isOpen, fun _ => h.covered hkeeps, fun _ => rfl, h.apart⟩
  | disconnectAll hflagged hmachines =>
    have hturn := Ssh.Machines.turn_of_step h.coherent.wired.named hmachines
    refine ⟨hsound, h.coherent.step hmachines, h.kept.step rfl hturn, fun hready => ?_, nofun, ?_,
      ?_⟩
    · exact hturn.restoring_nil (h.isOpen hready)
    · intro run log hadmitted
      have hadmitted : site.admitted = some (.run run log) := hadmitted
      simp [Site.SetsUp, Site.setsUp, hadmitted, Request.isRun] at hok
    · intro name hname happ
      rcases h.kept.hasApp_of_turn hturn (Site.hasApp_iff.mp happ) with hbefore |
        ⟨_, _, _, _, hevent, -⟩
      · exact h.apart hname (Site.hasApp_iff.mpr hbefore)
      · cases hevent
  | look hdisconnected hidle hnone =>
    refine ⟨hsound, h.coherent, h.kept, h.isOpen, nofun, fun hadmitted => ?_, h.apart⟩
    cases (Site.admitted_of_isIdle hidle).symm.trans hadmitted
  | exit hlooked =>
    apply h.gone hsound
    rintro name (⟨up, hup, -⟩ | hrow)
    · cases hup
    · exact .inr hrow

end Site.Apart

/-- In every state that a Site reaches, no name is both a VM's and a Machine-backed App's, as
long as every Machine that a start finds recorded is set up, no statement on the Machine
tables fails and has its effect, and `disconnect_all` comes when no `run` is about to look. -/
theorem names_never_collide (subnet : Subnet) {schedule : List SiteEvent}
    (hrun : run (Site.step subnet) .fresh schedule = some site)
    (hok : Along (Site.step subnet) Site.SetsUp .fresh schedule) (name : Str) :
    ¬ (site.node.HasVm name ∧ site.HasApp name) := by
  have hapart : site.Apart subnet :=
    run_preserves (fun hok h hstep => Site.Apart.step h hok hstep) (.fresh subnet) hok hrun
  rintro ⟨hvm, happ⟩
  exact hapart.apart hvm happ

/-- A Node with one Machine, and the App "web" on it. -/
def appSchedule : List SiteEvent :=
  [.node .boot, .node (.bootStep .ok 0), .node (.bootStep .ok 0), .openSocket,
    .machines (.add "a" "root@a" "SHA256:a"
      [("ssh-ed25519 a", "SHA256:a")]),
    .machines (.rewriteForAdd true), .machines (.writeKnownHosts true (.ok [])),
    .machines (.logIn true), .machines (.recordMachine .ok), .machines (.rewriteForAdd true),
    .machines (.writeKnownHosts true (.ok [])),
    .runOnMachine ⟨"web", "a", "web.example", 80, none⟩ (.ok [8080]) .ok
      (.ok [])]

/-- A start can't rewrite the known hosts for the Machine, and goes on. -/
def skippedSchedule : List SiteEvent :=
  appSchedule ++
    [.node .crash, .node .boot, .node (.bootStep .ok 0), .node (.bootStep .ok 0),
      .machines (.restoreNext false), .openSocket,
      .accept (.run (.sample "web" none) "web.log"), .reserve]

/-- The same start sets the Machine up. -/
def restoredSchedule : List SiteEvent :=
  appSchedule ++
    [.node .crash, .node .boot, .node (.bootStep .ok 0), .node (.bootStep .ok 0),
      .machines (.restoreNext true), .machines (.writeKnownHosts true (.ok [8080])), .openSocket,
      .accept (.run (.sample "web" none) "web.log"), .reserve]

/-- A request is let in, and the Machines are let go before it looks at them. -/
def letGoSchedule : List SiteEvent :=
  appSchedule ++
    [.accept (.run (.sample "web" none) "web.log"), .setFlag, .disconnectAll,
      .reserve]

/-- The name of a recorded App is given to a VM: after a start that left its Machine out, and
when the Machines were let go under a request. -/
theorem recorded_app_name_taken :
    (∃ site, run (Site.step .sample) .fresh skippedSchedule = some site ∧
      site.node.HasVm "web" ∧ site.HasApp "web") ∧
    ∃ site, run (Site.step .sample) .fresh letGoSchedule = some site ∧
      site.node.HasVm "web" ∧ site.HasApp "web" := by
  have hcollides {schedule}
      (hends : ∃ site, run (Site.step .sample) .fresh schedule = some site ∧
        "web".toList ∈ site.machines.stored.apps ∧
        ∃ up, site.node.up = some up ∧ "web".toList ∈ up.agent.vms) :
      ∃ site, run (Site.step .sample) .fresh schedule = some site ∧
        site.node.HasVm "web" ∧ site.HasApp "web" := by
    obtain ⟨site, hrun, hrow, hentry⟩ := hends
    exact ⟨site, hrun, .inl hentry, .inr hrow⟩
  exact ⟨hcollides (by decide +kernel), hcollides (by decide +kernel)⟩

/-- The theorem applies: when the start sets the Machine up, the request is refused. -/
theorem restored_app_name_kept :
    ∃ site, run (Site.step .sample) .fresh restoredSchedule = some site ∧
      site.HasApp "web" ∧ ¬ site.node.HasVm "web" := by
  obtain ⟨site, hrun, hrow⟩ : ∃ site,
      run (Site.step .sample) .fresh restoredSchedule = some site ∧
      "web".toList ∈ site.machines.stored.apps := by decide +kernel
  have happ : site.HasApp "web" := .inr hrow
  exact ⟨site, hrun, happ, fun hvm =>
    names_never_collide .sample hrun (by decide +kernel) "web" ⟨hvm, happ⟩⟩

end Cirrocumulus
