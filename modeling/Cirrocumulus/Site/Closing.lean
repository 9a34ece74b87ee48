/-
# Shutdown

`shutdown` sets its flag without the table's lock, and a request reads the flag with it. A
request that found the flag down has the lock until its entry is in the table, so when
`shutdown` has the lock and sees no Starting entry, there is no such request, and none
comes any more. By then every VM that the agent started has been recorded, or its VMM is
gone.
-/

import Cirrocumulus.Site.Steps

namespace Cirrocumulus

open Lib List Option
open Node (System NodeEvent AgentProcess Subnet Standing Host)

variable {subnet : Subnet} {site next : Site} {event : SiteEvent} {before : Host}

/-! ## Once the table was looked at -/

/-- How `shutdown` comes to have looked at the table. -/
inductive Site.LookMove (site next : Site) : Prop
  /-- It had done so before. -/
  | looked (hlooked : site.shutdown = .looked)
      (hadmitted : site.admitted = none → next.admitted = none)
  | looks (hnode : next.node = site.node) (hidle : site.admitted = none)
      (hadmitted : next.admitted = none)
      (hnone : ∀ up, site.node.up = some up → ∀ (name : Str) (entry : Node.Entry),
        up.agent.vms[name]? = some entry → entry.isStarting = false)

theorem Site.lookMove (hstep : site.step subnet event = some next)
    (hlooked : next.shutdown = .looked) : site.LookMove next := by
  cases move_of_step hstep with
  | @node event node =>
    obtain ⟨host, up⟩ := node
    cases up with
    | none => cases hlooked
    | some up => exact .looked hlooked fun hadmitted => hadmitted
  | accept hidle hoff => cases hoff.symm.trans hlooked
  | reserve | refused => exact .looked hlooked fun _ => rfl
  | setFlag | disconnectAll | exit => cases hlooked
  | look hdisconnected hidle hnone =>
    have hfree := admitted_of_isIdle hidle
    exact .looks rfl hfree hfree hnone
  | _ => exact .looked hlooked fun hadmitted => hadmitted

/-- Once `shutdown` has looked, no request is on its way to the table and no launch is left. -/
def Site.Quiet (site : Site) : Prop :=
  site.shutdown = .looked → site.admitted = none ∧
    ∀ up, site.node.up = some up → ∀ task : Nat, up.agent.launches[task]? = none

theorem Site.Quiet.step (h : site.Quiet) (hreached : site.node.Reached subnet)
    (hstep : site.step subnet event = some next) : next.Quiet := by
  intro hlooked
  cases lookMove hstep hlooked with
  | looked hbefore hadmitted =>
    obtain ⟨hidle, hnone⟩ := h hbefore
    refine ⟨hadmitted hidle, fun up hup task => ?_⟩
    cases nodeMove hstep with
    | stays hnode => exact hnone up (hnode ▸ hup) task
    | reserves hnode hsome hevent => cases hidle.symm.trans hsome
    | moves hnode hbegins hboot =>
      rw [eq_none_iff_forall_ne_some]
      intro launch hlaunch
      rcases hreached.launch_of_step hnode hup hlaunch with ⟨was, hwas, hold⟩ | hfrom
      · cases (hnone was hwas task).symm.trans hold
      · exact hbegins launch hfrom
  | looks hnode hidle hadmitted hnone =>
    refine ⟨hadmitted, fun up hup task => ?_⟩
    rw [hnode] at hup
    rw [eq_none_iff_forall_ne_some]
    intro launch hlaunch
    have hentry := (hreached.sound.up hup).owned.launch_entry hlaunch
    cases hnone up hup _ _ hentry

/-! ## Whole runs -/

/-- There is no `shutdown` without an agent. -/
theorem Site.off_step (h : site.node.up = none → site.shutdown = .off)
    (hstep : site.step subnet event = some next) (hdown : next.node.up = none) :
    next.shutdown = .off := by
  cases move_of_step hstep with
  | @node event node =>
    obtain ⟨host, up⟩ := node
    cases up with
    | none => rfl
    | some up => cases hdown
  | openSocket hopen hunlocked hnode =>
    obtain ⟨up, -, hnode⟩ := bind_eq_some_iff.mp hnode
    cases AgentProcess.move_of_step hnode with
    | opens => cases hdown
    | begins hfrom => cases hfrom
  | @reserve request node hadmitted hnode =>
    obtain ⟨up, -, hnode⟩ := reserve_of_step hnode
    obtain ⟨launch, -, ⟨⟩⟩ := AgentProcess.beginMove_of_request hnode
    cases hdown
  | setFlag hready =>
    have hup := up_of_isReady hready
    rw [show site.node.up = none from hdown] at hup
    cases hup
  | disconnectAll hflagged => cases (h hdown).symm.trans hflagged
  | look hdisconnected => cases (h hdown).symm.trans hdisconnected
  | exit => rfl
  | _ => exact h hdown

/-- What holds of the Node of a Site, however its agents come and go. -/
structure Site.Sound (subnet : Subnet) (site : Site) : Prop where
  reached : site.node.Reached subnet
  recorded : ∀ {name s}, site.node.Stands name s → s.Recorded name site.node.host.rows[name]?
  quiet : site.Quiet
  off : site.node.up = none → site.shutdown = .off

theorem Site.Sound.fresh (subnet : Subnet) : fresh.Sound subnet := by
  refine ⟨.fresh subnet, fun {name s} hs => ?_, nofun, fun _ => rfl⟩
  cases hs with
  | down => trivial
  | up hup => cases hup

theorem Site.Sound.step (h : site.Sound subnet) (hstep : site.step subnet event = some next) :
    next.Sound subnet := by
  have hmove := nodeMove hstep
  refine ⟨hmove.reached h.reached, fun {name s} hs => ?_, h.quiet.step h.reached hstep,
    off_step h.off hstep⟩
  cases hmove with
  | stays hnode =>
    rw [hnode] at hs ⊢
    exact h.recorded hs
  | moves hnode hbegins hboot =>
    obtain ⟨s₀, hs₀, hmove⟩ := h.reached.nameMove hnode hs
    exact (h.recorded hs₀).step hmove
  | reserves hnode hadmitted hevent =>
    obtain ⟨s₀, hs₀, hmove⟩ := h.reached.seeing.nameMove hnode hs
    have hrecorded : s₀.Recorded name
        (site.node.seeing site.machines.apps).host.rows[name]? :=
      h.recorded (System.stands_seeing.mp hs₀)
    exact hrecorded.step hmove

theorem Site.Sound.of_run {schedule}
    (hrun : run (Site.step subnet) .fresh schedule = some site) : site.Sound subnet :=
  run_preserves_all (fun h hstep => Site.Sound.step h hstep) (.fresh subnet) hrun

theorem Node.System.Accounted.seeing {node : System} {machines}
    (h : node.Accounted subnet before) : (node.seeing machines).Accounted subnet before := by
  refine ⟨h.reached.seeing, fun hs => h.recorded (System.stands_seeing.mp hs),
    fun hup {a holder} ha hholder => ?_⟩
  refine h.places ?_ ha hholder.of_seeing
  simpa [System.seeing] using hup

/-! ## One agent -/

/-- An agent that ends leaves its host as it is. -/
theorem Node.NameMove.host_of_down {node next nodeEvent name s}
    (hmove : NameMove node next name nodeEvent s .down) (hs : s ≠ .down) :
    next.host = node.host := by
  generalize hdown : Standing.down = s' at hmove
  cases hmove with
  | untouched | dropped => exact absurd hdown.symm hs
  | down hhost => exact hhost
  | @gaveUp task now outcome launch vm =>
    cases haside : launch.setAside <;> rw [haside] at hdown <;> cases hdown
  | _ => cases hdown

theorem Node.System.Reached.host_of_down {node next : System} {nodeEvent} (h : node.Reached subnet)
    (hup : node.up.isSome) (hstep : node.step subnet nodeEvent = some next)
    (hdown : next.up = none) : next.host = node.host := by
  have hnext : next.Stands [] .down := .down hdown
  obtain ⟨s, hs, hmove⟩ := h.nameMove hstep hnext
  refine hmove.host_of_down ?_
  rintro rfl
  cases hs with
  | down hnone =>
    rw [hnone] at hup
    cases hup
  | up _ hs => cases hs

theorem Site.looked_step (hlooked : site.shutdown = .looked)
    (hstep : site.step subnet event = some next) (hup : next.node.up.isSome) :
    next.shutdown = .looked := by
  cases move_of_step hstep with
  | @node event node =>
    obtain ⟨host, up⟩ := node
    cases up with
    | none => cases hup
    | some up => exact hlooked
  | setFlag hready hoff => cases hoff.symm.trans hlooked
  | disconnectAll hflagged => cases hflagged.symm.trans hlooked
  | look => rfl
  | exit => cases hup
  | _ => exact hlooked

/-- There is no agent without a start. -/
theorem Site.up_of_step (hevent : event ≠ .node .boot) (hstep : site.step subnet event = some next)
    (hup : next.node.up.isSome) : site.node.up.isSome := by
  cases nodeMove hstep with
  | stays hnode => exact hnode ▸ hup
  | moves hnode hbegins hboot =>
    rcases System.step_eq_some hnode with ⟨_, _, -, hnext⟩ | ⟨hstart, -⟩ | ⟨up, hbefore, -⟩
    · rw [hnext] at hup
      exact hup
    · exact absurd (hboot hstart) hevent
    · rw [hbefore]
      rfl
  | @reserves request hnode hadmitted hevent =>
    rcases System.step_eq_some hnode with ⟨_, _, -, hnext⟩ | ⟨hstart, -⟩ | ⟨up, hbefore, -⟩
    · rw [hnext] at hup
      simpa [System.seeing] using hup
    · cases request <;> cases hstart
    · cases hsite : site.node.up with
      | none => simp [System.seeing, hsite] at hbefore
      | some up => rfl

theorem Site.accounted_step (h : site.node.Accounted subnet before) (hevent : event ≠ .node .boot)
    (hstep : site.step subnet event = some next) : next.node.Accounted subnet before := by
  cases nodeMove hstep with
  | stays hnode =>
    rw [hnode]
    exact h
  | moves hnode hbegins hboot => exact h.step (fun hstart => hevent (hboot hstart)) hnode
  | @reserves request hnode hadmitted hreserve =>
    refine h.seeing.step (fun hstart => ?_) hnode
    cases request <;> cases hstart

/-- An agent that has looked at its table, and what it leaves. -/
inductive Site.Leaves (subnet : Subnet) (before : Host) (site : Site) : Prop
  | runs (hup : site.node.up.isSome) (hlooked : site.shutdown = .looked)
      (haccounted : site.node.Accounted subnet before)
  | gone (hdown : site.node.up = none) (hall : site.node.host.AllRecorded subnet before)

theorem Site.Leaves.all (h : site.Leaves subnet before) (hquiet : site.Quiet) :
    site.node.host.AllRecorded subnet before := by
  cases h with
  | gone hdown hall => exact hall
  | runs hup hlooked haccounted =>
    obtain ⟨up, hup⟩ := isSome_iff_exists.mp hup
    exact haccounted.allRecorded hup ((hquiet hlooked).2 up hup)

theorem Node.Host.AllRecorded.kill {host : Host} (h : host.AllRecorded subnet before)
    (vmAddress : Node.Ipv4Addr) (process : Node.ProcessId) :
    (host.setObjects vmAddress
      ((host.objectsAt (hostId vmAddress)).kill (some process))).AllRecorded
        subnet before := by
  intro a p ha hrunning hnew
  refine h ha ?_ hnew
  have hrests := (host.objectsAt (hostId vmAddress)).procs_kill_subset (some process)
  rw [isRunning_iff] at hrunning ⊢
  simp only [objectsAt, setObjects, lookup_insert] at hrunning
  split at hrunning
  · rename_i heq
    rw [heq]
    exact hrests p hrunning
  · exact hrunning

theorem Site.Leaves.step (h : site.Leaves subnet before) (hsound : site.Sound subnet)
    (hevent : event ≠ .node .boot) (hstep : site.step subnet event = some next) :
    next.Leaves subnet before := by
  have hall := h.all hsound.quiet
  cases hnext : next.node.up with
  | some up =>
    have hup : next.node.up.isSome := by rw [hnext]; rfl
    have hbefore := up_of_step hevent hstep hup
    cases h with
    | gone hdown =>
      rw [hdown] at hbefore
      cases hbefore
    | runs _ hlooked haccounted =>
      exact .runs hup (looked_step hlooked hstep hup)
        (accounted_step haccounted hevent hstep)
  | none =>
    refine .gone hnext ?_
    cases nodeMove hstep with
    | stays hnode =>
      rw [hnode]
      exact hall
    | moves hnode hbegins hboot =>
      rcases System.step_eq_some hnode with ⟨a, p, -, hkill⟩ | ⟨hstart, -⟩ | ⟨up, hup, -⟩
      · rw [hkill]
        exact hall.kill a p
      · exact absurd (hboot hstart) hevent
      · rw [hsound.reached.host_of_down (by rw [hup]; rfl) hnode hnext]
        exact hall
    | @reserves request hnode hadmitted hreserve =>
      rcases System.step_eq_some hnode with ⟨a, p, hkill, -⟩ | ⟨hstart, -⟩ | ⟨up, hup, -⟩
      · cases request <;> cases hkill
      · cases request <;> cases hstart
      · have hhost := hsound.reached.seeing.host_of_down (by rw [hup]; rfl) hnode hnext
        rw [hhost]
        exact hall

/-- Once `shutdown` has looked at the table and seen no Starting entry, none appears again
as long as that agent runs; and from then on, also when the agent is gone, every VMM that
was not running when the agent started is that of a row. -/
theorem shutdown_leaves_no_unrecorded_vm (subnet : Subnet) {before first rest : List SiteEvent}
    {down looked site : Site} (hbefore : run (Site.step subnet) .fresh before = some down)
    (hfirst : run (Site.step subnet) down (.node .boot :: first) = some looked)
    (hlooked : looked.shutdown = .looked)
    (hrest : run (Site.step subnet) looked rest = some site)
    (hone : ∀ event ∈ first ++ rest, event ≠ .node .boot) :
    (∀ up, site.node.up = some up → ∀ (name : Str) (entry : Node.Entry),
      up.agent.vms[name]? = some entry → entry.isStarting = false) ∧
    site.node.host.AllRecorded subnet down.node.host := by
  have hdown := Site.Sound.of_run hbefore
  obtain ⟨started, hstart, hfirst⟩ := run_cons_eq_some.mp hfirst
  -- The agent starts, and accounts for its VMMs.
  have hstarted : started.Sound subnet ∧
      (started.node.up.isSome → started.node.Accounted subnet down.node.host) := by
    refine ⟨hdown.step hstart, fun _ => ?_⟩
    simp only [Site.step, NodeEvent.own, Bool.true_and] at hstart
    split at hstart
    · obtain ⟨node, hnode, rfl⟩ := map_eq_some_iff.mp hstart
      rw [Site.node_onNode]
      exact hdown.reached.accounted hdown.recorded hnode
    · cases hstart
  have hkeep {site next : Site} {event : SiteEvent} (hevent : event ≠ .node .boot)
      (h : site.Sound subnet ∧ (site.node.up.isSome → site.node.Accounted subnet down.node.host))
      (hstep : site.step subnet event = some next) : next.Sound subnet ∧
        (next.node.up.isSome → next.node.Accounted subnet down.node.host) :=
    ⟨h.1.step hstep, fun hup =>
      Site.accounted_step (h.2 (Site.up_of_step hevent hstep hup)) hevent hstep⟩
  have hboots (schedule : List SiteEvent) (hsub : ∀ event ∈ schedule, event ∈ first ++ rest)
      (state : Site) :
      Along (Site.step subnet) (fun _ event => event ≠ .node .boot) state schedule :=
    .of_forall fun event hevent _ => hone event (hsub event hevent)
  have hseen : looked.Sound subnet ∧
      (looked.node.up.isSome → looked.node.Accounted subnet down.node.host) :=
    run_preserves (fun hok h hstep => hkeep hok h hstep) hstarted
      (hboots first (fun event => mem_append_left rest) started) hfirst
  have hup : looked.node.up.isSome := by
    rw [← ne_none_iff_isSome]
    intro hnone
    cases (hseen.1.off hnone).symm.trans hlooked
  have hleaves {site next : Site} {event : SiteEvent} (hevent : event ≠ .node .boot)
      (h : site.Sound subnet ∧ site.Leaves subnet down.node.host)
      (hstep : site.step subnet event = some next) :
      next.Sound subnet ∧ next.Leaves subnet down.node.host :=
    ⟨h.1.step hstep, h.2.step h.1 hevent hstep⟩
  have hend : site.Sound subnet ∧ site.Leaves subnet down.node.host :=
    run_preserves (fun hok h hstep => hleaves hok h hstep)
      ⟨hseen.1, .runs hup hlooked (hseen.2 hup)⟩
      (hboots rest (fun event => mem_append_right first) looked) hrest
  refine ⟨fun up hup name entry hentry => ?_, hend.2.all hend.1.quiet⟩
  cases hend.2 with
  | gone hnone => cases hnone.symm.trans hup
  | runs _ hlooked =>
    cases entry with
    | starting vmAddress log route =>
      obtain ⟨task, launch, hlaunch, -⟩ :=
        (hend.1.reached.sound.up hup).owned.starting_launch hentry
      cases ((hend.1.quiet hlooked).2 up hup task).symm.trans hlaunch
    | running | ended => rfl

/-- A request is let in before the flag is set, and reserves its name after the Machines
were let go; then the VM is started, and `shutdown` looks at the table. -/
def lateRequestSchedule : List SiteEvent :=
  [.node (.bootStep .ok 0), .node (.bootStep .ok 0), .openSocket,
    .accept (.run (.sample "web" none) "web.log"), .setFlag, .disconnectAll,
    .reserve] ++ List.replicate 9 (.node (.launch 0 .ok 0)) ++ [.look]

/-- The theorem applies: the VM of the late request runs and is recorded when the agent has
exited. -/
theorem late_request_recorded :
    ∃ looked site,
      run (Site.step .sample) .fresh (.node .boot :: lateRequestSchedule) = some looked ∧
      run (Site.step .sample) looked [.exit] = some site ∧
      site.node.host.isRunning 0x0A4D0002#32 1 = true ∧
      ∃ (name : Str) (row : Node.Row), site.node.host.rows[name]? = some row ∧
        row.ended = none ∧ row.vmAddress = some 0x0A4D0002#32 ∧ row.process = some 1 := by
  obtain ⟨looked, hfirst, hlooked, site, hrest, hrunning⟩ : ∃ looked,
      run (Site.step .sample) .fresh (.node .boot :: lateRequestSchedule) = some looked ∧
      looked.shutdown = .looked ∧
      ∃ site, run (Site.step .sample) looked [.exit] = some site ∧
        site.node.host.isRunning 0x0A4D0002#32 1 := by decide +kernel
  refine ⟨looked, site, hfirst, hrest, hrunning, ?_⟩
  have hbefore : run (Site.step .sample) .fresh [] = some .fresh := rfl
  exact (shutdown_leaves_no_unrecorded_vm .sample hbefore hfirst hlooked hrest
    (by simp [lateRequestSchedule])).2 (by decide +kernel) hrunning (by decide +kernel)

end Cirrocumulus
