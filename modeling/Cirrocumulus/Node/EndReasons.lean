/-
# Why a VM ended

A VMM that ends by itself leaves three kinds of evidence: the exit status, which only the
agent that started it learns; the end of its console; and, for an adopted VMM, the count
of OOM kills in its cgroup. `natural_end` weighs the first two, `vmm_natural_end` all
three, and which of them is asked depends on where the supervisor is when it notices.

A crash is recorded as one wherever its evidence is looked at. It is not looked at in two
cases: a supervisor that comes to kill a VMM finds it gone, and the OOM kill of an
adopted VMM that was already asked to stop.
-/

import Cirrocumulus.Node.ParkAnswers

namespace Cirrocumulus.Node

open Lib List

namespace Supervisor

variable {γ : Type}

/-! ## What `memory.events` says -/

theorem trim_of_no_whitespace {s} (h : ∀ c ∈ s, isWhitespace c = false) : trim s = s := by
  have hdrop (l : Str) (hl : ∀ c ∈ l, isWhitespace c = false) : l.dropWhile isWhitespace = l := by
    cases l with
    | nil => rfl
    | cons c rest => simp [hl c mem_cons_self]
  rw [trim, hdrop s h, hdrop s.reverse (by simpa using h), reverse_reverse]

theorem repr_eq_zero_iff {n} : (Nat.repr n).toList = ['0'] ↔ n = 0 := by
  constructor
  · intro h
    have hread : Nat.ofDigitChars 10 (Nat.repr n).toList 0 = n := by
      rw [Nat.toList_repr, Nat.ofDigitChars_ten_toDigits]
    rw [h] at hread
    exact hread.symm
  · rintro rfl
    rfl

/-- No count breaks a line of `memory.events` in two. -/
theorem MemoryEvents.splitOn_text (events : MemoryEvents) :
    events.text.splitOn '\n' = events.lines := by
  have hline (key : Str) (hkey : '\n' ∉ key) (count : Nat) :
      '\n' ∉ key ++ (Nat.repr count).toList := by
    rw [mem_append]
    rintro (h | h)
    · exact hkey h
    · cases isDigit_of_mem_repr h
  apply splitOn_intercalate '\n'
  · simp only [lines, mem_cons, not_mem_nil, or_false]
    rintro line (rfl | rfl | rfl | rfl | rfl | rfl | rfl)
    · exact hline _ (by decide) _
    · exact hline _ (by decide) _
    · exact hline _ (by decide) _
    · exact hline _ (by decide) _
    · exact hline _ (by decide) _
    · exact hline _ (by decide) _
    · exact not_mem_nil
  · exact cons_ne_nil _ _

/-- `oom_killed` reads the count it means to read, and for an adopted VMM only. -/
theorem Vmm.oomKilled_iff (vmm : Vmm) :
    vmm.oomKilled ↔ vmm.adopted ∧ vmm.events.oomKill ≠ 0 := by
  have hlines : vmm.events.lines.filterMap (stripPrefix "oom_kill ") =
      [(Nat.repr vmm.events.oomKill).toList] := rfl
  have htrim : trim (Nat.repr vmm.events.oomKill).toList =
      (Nat.repr vmm.events.oomKill).toList :=
    trim_of_no_whitespace fun _ hc => not_isWhitespace_of_isDigit (isDigit_of_mem_repr hc)
  rw [Vmm.oomKilled, MemoryEvents.splitOn_text, hlines, any_cons, any_nil,
    Bool.or_false, htrim, Bool.and_eq_true, bne_iff_ne, Ne, repr_eq_zero_iff]

/-! ## What an end shows -/

/-- The VMM ended by itself, and not because the supervisor killed it. -/
def Vmm.EndedByItself (vmm : Vmm) : Prop :=
  ∃ success, vmm.ended = some (.byItself success)

/-- The status or the console shows a crash: what `natural_end` looks at. -/
def Vmm.ShowsFailure (vmm : Vmm) : Prop :=
  vmm.status = some false ∨ panicked vmm.console = true

/-- Anything shows a crash, an OOM kill in an adopted VMM's cgroup included. -/
def Vmm.ShowsCrash (vmm : Vmm) : Prop :=
  vmm.ShowsFailure ∨ vmm.adopted = true ∧ vmm.events.oomKill ≠ 0

variable {vmm : Vmm}

theorem naturalEnd_of_showsFailure (h : vmm.ShowsFailure) :
    naturalEnd vmm.status vmm.console = .crashed := by
  rcases h with hstatus | hpanicked
  · rw [hstatus]
    rfl
  · unfold naturalEnd
    split
    · rfl
    · rw [if_pos hpanicked]

/-- Where the supervisor looks at everything, every crash is one. -/
theorem vmmNaturalEnd_of_showsCrash (h : vmm.ShowsCrash) : vmmNaturalEnd vmm = .crashed := by
  unfold vmmNaturalEnd
  rcases h with hfailure | hoom
  · rw [naturalEnd_of_showsFailure hfailure, ite_self]
  · rw [if_pos ((Vmm.oomKilled_iff vmm).mpr hoom)]

theorem gracefulEnd_of_showsFailure (h : vmm.ShowsFailure) : gracefulEnd vmm = .crashed := by
  rw [gracefulEnd, naturalEnd_of_showsFailure h]

/-- The supervisor does not pass over the VMM's end: it never comes to kill a VMM that has
ended by itself, and during a graceful stop an OOM kill is not all there is to see. -/
def looksAtEnd (s : Supervisor γ) (event : Event γ) : Bool :=
  match s.pc, event with
  | .killing, .proceeds | .parking _ .killing, .proceeds =>
    match s.vmm.ended with
    | some (.byItself _) => false
    | _ => true
  | .stopping, .notices =>
    !(s.vmm.adopted && s.vmm.events.oomKill != 0) || panicked s.vmm.console
  | _, _ => true

/-! ## What is recorded -/

/-- What the supervisor has recorded, or is about to. -/
def Pc.Recorded (vmm : Vmm) : Pc → Prop
  | .parking _ .moving | .parking _ (.answering .ok) => vmm.ended = some .killed
  | .returned reason =>
    vmm.ended.isSome ∧ (vmm.EndedByItself → vmm.ShowsCrash → reason = .crashed)
  | _ => True

/-- While the VMM runs nothing is recorded. -/
theorem Pc.Recorded.of_up {pc : Pc} {vmm'} (hup : vmm.ended = none)
    (h : pc.Recorded vmm) : pc.Recorded vmm' := by
  match pc with
  | .parking _ .moving | .parking _ (.answering .ok) => cases hup.symm.trans h
  | .returned reason =>
    rw [Pc.Recorded, hup] at h
    cases h.1
  | .waiting | .asking | .stopping | .killing => trivial
  | .parking _ .creating | .parking _ .pausing | .parking _ .snapshotting
  | .parking _ .resuming | .parking _ .killing | .parking _ (.removing _)
  | .parking _ (.answering .resumed) | .parking _ (.answering .lost) => trivial

/-- A kill that finds the VMM running, or killed before, is the VMM's end. -/
theorem ended_kill {s : Supervisor γ}
    (hpc : s.pc = .killing ∨ ∃ into, s.pc = .parking into .killing)
    (hlooks : s.looksAtEnd .proceeds) : s.vmm.kill.ended = some .killed := by
  have hended : ∀ success, s.vmm.ended ≠ some (.byItself success) := by
    intro success h
    rcases hpc with hpc | ⟨into, hpc⟩ <;> simp [looksAtEnd, hpc, h] at hlooks
  unfold Vmm.kill
  cases h : s.vmm.ended with
  | none => rfl
  | some how =>
    cases how with
    | byItself success => exact absurd h (hended success)
    | killed => rfl

theorem not_endedByItself (h : vmm.ended = some .killed) : ¬vmm.EndedByItself := by
  rintro ⟨success, hended⟩
  cases h.symm.trans hended

theorem Pc.recorded_step {s s' : Supervisor γ} {event} (hlooks : s.looksAtEnd event)
    (h : s.pc.Recorded s.vmm) (hstep : s.step event = some s') : s'.pc.Recorded s'.vmm := by
  cases move_of_step hstep with
  | prints hup => exact h.of_up hup
  | ends hup => exact h.of_up hup
  | notices hpc hended | askedEnded hpc hended =>
    exact ⟨hended, fun _ hcrash => vmmNaturalEnd_of_showsCrash hcrash⟩
  | noticesStop hpc hended =>
    refine ⟨hended, fun _ (hcrash : s.vmm.ShowsCrash) => gracefulEnd_of_showsFailure ?_⟩
    rcases hcrash with hfailure | ⟨hadopted, hoom⟩
    · exact hfailure
    · -- an OOM kill counts only with a panic on the console
      simp only [looksAtEnd, hpc, hadopted, Bool.true_and, Bool.or_eq_true, Bool.not_eq_true',
        bne_eq_false_iff_eq] at hlooks
      exact .inr (hlooks.resolve_left hoom)
  | keepsStopping hpc => exact h
  | kills hpc =>
    have hkilled := ended_kill (.inl hpc) hlooks
    exact ⟨by rw [hkilled]; rfl, fun hended => absurd hended (not_endedByItself hkilled)⟩
  | killsParked hpc => exact ended_kill (.inr ⟨_, hpc⟩) hlooks
  | moved hpc hmoved =>
    rw [hpc] at h
    exact h
  | removes hpc =>
    rename_i lost
    cases lost <;> trivial
  | answersOk hpc =>
    rw [hpc] at h
    have hkilled : s.vmm.ended = some .killed := h
    exact ⟨by rw [answer, hkilled]; rfl, fun hended => absurd hended (not_endedByItself hkilled)⟩
  | takesPark | takesGraceful | refusesPark | givesUp | asked | askedInVain | created | notPaused
  | paused | resumed | notResumed | snapshot | noSnapshot | notMoved | answersResumed
  | answersLost => trivial

/-- A VMM that ends by itself and shows a crash is recorded as crashed, whoever started it,
whatever stops were asked for and wherever its end is noticed. -/
theorem crash_recorded {start s : Supervisor γ} {schedule : List (Event γ)} {reason : EndReason}
    (hstart : start.pc = .waiting)
    (hlooks : Along step (fun s event => s.looksAtEnd event = true) start schedule)
    (hrun : run step start schedule = some s) (hpc : s.pc = .returned reason)
    (hended : s.vmm.EndedByItself) (hcrash : s.vmm.ShowsCrash) : reason = .crashed := by
  have hrecorded : s.pc.Recorded s.vmm := by
    apply run_preserves Pc.recorded_step _ hlooks hrun
    rw [hstart]
    trivial
  rw [hpc] at hrecorded
  exact hrecorded.2 hended hcrash

/-- A VMM that exits with an error, or is OOM-killed, while the guest is asked to stop. -/
def endsWhileStopping (oomKills : Nat) : List (Event Nat) :=
  [.takes (some .graceful), .call true, .ends false oomKills, .notices]

theorem child_crash_recorded :
    ∃ s, run step sampleVm (endsWhileStopping 0) = some s ∧ s.pc = .returned .crashed := by
  have hlooks : Along step (fun s event => s.looksAtEnd event) sampleVm
      (endsWhileStopping 0) := by decide
  have hrun : ∃ s reason, run step sampleVm (endsWhileStopping 0) = some s ∧
      s.pc = .returned reason ∧ s.vmm.ended = some (.byItself false) ∧
      s.vmm.status = some false := ⟨_, _, rfl, rfl, rfl, rfl⟩
  obtain ⟨s, reason, hrun, hpc, hended, hstatus⟩ := hrun
  have hreason := crash_recorded rfl hlooks hrun hpc ⟨false, hended⟩ (.inl (.inl hstatus))
  exact ⟨s, hrun, hreason ▸ hpc⟩

/-- `sampleVm`, taken back by a later agent. -/
def adoptedVm : Supervisor Nat := { sampleVm with vmm := { sampleVm.vmm with adopted := true } }

/-- An adopted VMM that the kernel kills for want of memory while its guest is asked to
stop is recorded as having stopped gracefully. -/
theorem adopted_oom_kill_recorded_graceful :
    ∃ s, run step adoptedVm (endsWhileStopping 1) = some s ∧ s.vmm.EndedByItself ∧
      s.vmm.ShowsCrash ∧ s.pc = .returned .graceful := by
  refine ⟨_, rfl, ⟨false, rfl⟩, .inr ⟨rfl, by decide⟩, ?_⟩
  decide

end Supervisor

end Cirrocumulus.Node
