/-
# What a name's row says

Whichever statements failed before, a running VM's row is its own, and a name without a
VM or history has no row. So a crash finds the row of every VM that runs, and nothing
comes back under a name that was free.
-/

import Cirrocumulus.Node.Names

namespace Cirrocumulus.Node

/-- The row that goes with where a Node stands with a name. -/
def Standing.Recorded (name : Str) (row : Option Row) : Standing → Prop
  | .down | .loading => True
  | .absent => row = none
  | .ended _ _ removal => removal = some .erase → row = none
  | .launching _ launch pc vm =>
    (∀ startedAt, pc.startedAt = some startedAt → ∃ process, vm.process = some process ∧
      row = some (runningRow (launch.info startedAt) launch.log process)) ∧
    (pc.recorded = false → launch.setAside = none → row = none)
  | .running _ info log _ vm =>
    info.ended = none ∧ ∃ found, row = some found ∧ found.record name = ⟨info, log, vm.process⟩

variable {node next : System} {name : Str} {event : NodeEvent} {s s' : Standing} {task : Nat}

/-- A launch's steps keep the row in line with where it is. -/
theorem Standing.Recorded.launchStep {launch outcome now fresh pc pc' vm vm' view view'}
    (h : (Standing.launching task launch pc vm).Recorded name view.row)
    (hstep : launch.step fresh outcome now pc vm view = some (pc', vm', view')) :
    (Standing.launching task launch pc' vm').Recorded name view'.row := by
  obtain ⟨hrecorded, hfree⟩ := h
  cases (Launch.stepped hstep).row with
  | same hrow hstarted hvm =>
    have hrec : pc'.recorded = pc.recorded := congrArg Option.isSome hstarted
    refine ⟨fun startedAt hpc' => ?_, fun hpc' haside => ?_⟩
    · rw [hstarted] at hpc'
      have hpc : pc.recorded := by simp [LaunchPc.recorded, hpc']
      rw [hrow, hvm hpc]
      exact hrecorded startedAt hpc'
    · rw [hrow]
      exact hfree (hrec ▸ hpc') haside
  | recorded hok hprocess =>
    refine ⟨fun startedAt hpc' => ?_, fun hpc' => by cases hpc'⟩
    cases hpc'
    exact ⟨_, hprocess, rfl⟩
  | lost hok =>
    refine ⟨fun startedAt hpc' => (by cases hpc'), fun _ haside => ?_⟩
    rw [hfree rfl haside]
    rfl

theorem Standing.Recorded.step (h : s.Recorded name node.host.rows[name]?)
    (hmove : NameMove node next name event s s') : s'.Recorded name next.host.rows[name]? := by
  cases hmove with
  | untouched hsame =>
    rw [hsame.row]
    exact h
  | down => trivial
  | loaded => trivial
  | unknown hhost hrow =>
    rw [hhost]
    exact hrow
  | dropped hs hunowned hhost =>
    rw [hhost]
    exact h
  | restored | gone | lost | recorded | removing | notParked | undeleted =>
    exact fun hremoval => by cases hremoval
  | adopted hhost hrow hended haddress hprocess halive =>
    rw [hhost]
    exact ⟨hended, _, hrow, by simp [Row.record, Vm.adopt, hprocess]⟩
  | begun hname hhost =>
    refine ⟨fun startedAt hpc => (by cases hpc), fun _ haside => ?_⟩
    rw [haside] at h
    rw [hhost]
    exact h
  | launchStep hname hstep => exact h.launchStep hstep
  | @handedOver task task' now startedAt outcome launch vm hname hhost =>
    obtain ⟨process, hprocess, hrow⟩ := h.1 _ rfl
    rw [hhost]
    refine ⟨rfl, _, hrow, ?_⟩
    rw [hprocess, ← hname]
    exact record_runningRow (show (launch.info startedAt).ended = none from rfl) _ _
  | @gaveUp task now outcome launch vm hname hhost =>
    rw [hhost]
    cases haside : launch.setAside with
    | none => exact h.2 rfl haside
    | some old => exact fun hremoval => by cases hremoval
  | asked hhost hready htake =>
    rw [hhost]
    exact h
  | superviseStep hstep =>
    have hdone := Vm.supervised hstep
    obtain ⟨hended, found, hfound, hrecord⟩ := h
    refine ⟨hended, found, hdone.row.trans hfound, ?_⟩
    rw [hdone.process]
    exact hrecord
  | unsnapped hparked hhost =>
    intro hremoval
    split at hremoval <;> cases hremoval
  | deleted hok hhost =>
    rw [hhost]
    exact fun _ => (Lib.lookup_erase ..).trans (if_pos rfl)
  | erased hhost =>
    rw [hhost]
    exact h rfl

/-- In every state that a Node reaches, every name's row goes with where it stands. -/
theorem System.recorded_of_run {subnet schedule}
    (hrun : Lib.run (System.step subnet) .fresh schedule = some node) (hs : node.Stands name s) :
    s.Recorded name node.host.rows[name]? :=
  (Reached.fresh subnet).preserves_from_down (fun node s => s.Recorded name node.host.rows[name]?)
    (fun _ _ _ _ hrecorded hmove => hrecorded.step hmove) rfl trivial Lib.Along.trivial hrun hs

end Cirrocumulus.Node
