/-
# Live rows

A row can outlive its VM, when the VM's end could not be recorded. Its VMM is then dead
for good, so what matters of the rows is which of them are live: recorded as running,
with a VMM that does run. On a sound host no two live rows name one address, and most
of what happens on a host brings no row to life.
-/

import Cirrocumulus.Node.Moves

namespace Cirrocumulus.Node

variable {vmAddress : Ipv4Addr} {process : ProcessId} {name : Str}

/-- A row names every process that could still be running, and one of a VM recorded as
running says where it runs. -/
structure Row.Valid (next : ProcessId) (row : Row) : Prop where
  process_lt : ∀ {process}, row.process = some process → process < next
  running : row.ended = none →
    ∃ vmAddress process, row.vmAddress = some vmAddress ∧ row.process = some process

theorem Row.Valid.mono {row : Row} {next later} (h : row.Valid next)
    (hle : next ≤ later) : row.Valid later :=
  ⟨fun hprocess => (h.process_lt hprocess).trans_le hle, h.running⟩

theorem Row.valid_markEnded (row : Row) (ended : Ended) (next : ProcessId) :
    (row.markEnded ended).Valid next := by
  refine ⟨fun hprocess => ?_, fun hended => ?_⟩
  · cases hprocess
  · cases hended

theorem valid_runningRow {info} (haddress : info.vmAddress = some vmAddress) (log : Str) {next}
    (hlt : process < next) : (runningRow info log process).Valid next := by
  refine ⟨fun hprocess => ?_, fun _ => ⟨vmAddress, process, haddress, rfl⟩⟩
  cases hprocess
  exact hlt

namespace Host

/-- The name's row is of a VM recorded as running, whose VMM does run. -/
def LiveRow (host : Host) (name : Str) (vmAddress : Ipv4Addr) (process : ProcessId) : Prop :=
  ∃ row, host.rows[name]? = some row ∧ row.ended = none ∧ row.vmAddress = some vmAddress ∧
    row.process = some process ∧ host.isRunning vmAddress process = true

/-- What holds of a Node whether or not an agent runs. -/
structure Sound (subnet : Subnet) (host : Host) : Prop where
  valid : ∀ {name : Str} {row : Row}, host.rows[name]? = some row → row.Valid host.nextProcess
  live_mem : ∀ {name vmAddress process}, host.LiveRow name vmAddress process →
    vmAddress ∈ subnet.vmAddresses
  live_unique : ∀ {name other vmAddress process process'},
    host.LiveRow name vmAddress process → host.LiveRow other vmAddress process' → name = other

/-- Nothing comes to life between two hosts: no process but a fresh one starts. -/
structure Later (host later : Host) : Prop where
  next_le : host.nextProcess ≤ later.nextProcess
  running : ∀ {vmAddress process}, process < host.nextProcess →
    later.isRunning vmAddress process → host.isRunning vmAddress process

variable {subnet : Subnet} {host later : Host}

theorem Later.refl (host : Host) : host.Later host := ⟨Nat.le_refl _, fun _ h => h⟩

theorem Later.dead (h : host.Later later)
    (hlt : process < host.nextProcess) (hdead : host.isRunning vmAddress process = false) :
    later.isRunning vmAddress process = false := by
  rw [Bool.eq_false_iff] at hdead ⊢
  exact fun hrunning => hdead (h.running hlt hrunning)

theorem isRunning_iff :
    host.isRunning vmAddress process ↔
      process ∈ (host.objectsAt (hostId vmAddress)).procs := by
  simp [isRunning]

theorem not_live_of_ended {row} (hrow : host.rows[name]? = some row) (hended : row.ended ≠ none) :
    ¬ host.LiveRow name vmAddress process := by
  rintro ⟨found, hfound, hnone, -⟩
  rw [hrow] at hfound
  cases hfound
  exact hended hnone

/-! ## The ways a host changes -/

theorem later_setObjects {objects}
    (hprocs : ∀ p ∈ objects.procs, p ∈ (host.objectsAt (hostId vmAddress)).procs) :
    host.Later (host.setObjects vmAddress objects) := by
  refine ⟨Nat.le_refl _, fun {other process} _ hrunning => ?_⟩
  rw [isRunning_iff] at hrunning ⊢
  simp only [objectsAt, setObjects, Lib.lookup_insert] at hrunning
  split at hrunning
  · rename_i heq
    rw [heq]
    exact hprocs process hrunning
  · exact hrunning

theorem later_put {view} (hprocs : ∀ p ∈ view.objects.procs,
      p ∈ (host.view name vmAddress).objects.procs ∨ p = host.nextProcess) :
    host.Later (host.put name vmAddress view) := by
  refine ⟨Nat.le_succ _, fun {other process} hlt hrunning => ?_⟩
  rw [isRunning_iff] at hrunning ⊢
  rw [objectsAt_put] at hrunning
  split at hrunning
  · rename_i heq
    rw [heq]
    rcases hprocs process hrunning with hmem | rfl
    · exact hmem
    · exact absurd hlt (Nat.lt_irrefl _)
  · exact hrunning

theorem later_rows (rows : Rows) : host.Later { host with rows } :=
  ⟨Nat.le_refl _, fun _ hrunning => hrunning⟩

theorem later_removeSnapshot (name : Str) (outcome : Outcome) :
    host.Later (host.removeSnapshot name outcome) :=
  ⟨Nat.le_refl _, fun _ hrunning => hrunning⟩

theorem later_ite {p} [Decidable p] (h : host.Later later) :
    host.Later (if p then later else host) := by
  split
  · exact h
  · exact .refl host

/-! ## The rows of a sound host -/

variable (h : host.Sound subnet)
include h

/-- A row that is unchanged was live before if it is now. -/
theorem Sound.live_of_same (hlater : host.Later later) (hrow : later.rows[name]? = host.rows[name]?)
    (hlive : later.LiveRow name vmAddress process) : host.LiveRow name vmAddress process := by
  obtain ⟨row, hget, hended, haddress, hprocess, hrunning⟩ := hlive
  rw [hrow] at hget
  have hlt := (h.valid hget).process_lt hprocess
  exact ⟨row, hget, hended, haddress, hprocess, hlater.running hlt hrunning⟩

/-- A host whose rows are valid and of which no row came to life. -/
theorem Sound.of_live (hvalid : ∀ (name : Str) (row : Row), later.rows[name]? = some row →
      row.Valid later.nextProcess)
    (hlive : ∀ {name vmAddress process}, later.LiveRow name vmAddress process →
      host.LiveRow name vmAddress process) : later.Sound subnet where
  valid := fun hrow => hvalid _ _ hrow
  live_mem := fun hrow => h.live_mem (hlive hrow)
  live_unique := fun hrow hother => h.live_unique (hlive hrow) (hlive hother)

/-- A host with the same rows. -/
theorem Sound.of_same_rows (hlater : host.Later later)
    (hrows : later.rows = host.rows) : later.Sound subnet := by
  refine h.of_live (fun name row hrow => ?_) (h.live_of_same hlater (by rw [hrows]))
  rw [hrows] at hrow
  exact (h.valid hrow).mono hlater.next_le

/-- A row that is marked as ended is not live, and no other row comes to life. -/
theorem Sound.live_of_markEnded {other ended}
    (hlive : LiveRow { host with rows := host.rows.markEnded name ended } other vmAddress
      process) : other ≠ name ∧ host.LiveRow other vmAddress process := by
  by_cases heq : other = name
  · obtain ⟨row, hrow, hended, -⟩ := hlive
    simp only [lookup_markEnded, if_pos heq] at hrow
    obtain ⟨old, -, rfl⟩ := Option.map_eq_some_iff.mp hrow
    cases hended
  · refine ⟨heq, h.live_of_same (later_rows _) ?_ hlive⟩
    simp only [lookup_markEnded, if_neg heq]

theorem Sound.markEnded (name : Str) (ended : Ended) :
    Sound subnet { host with rows := host.rows.markEnded name ended } := by
  refine h.of_live (fun other row hrow => ?_) fun hlive => (h.live_of_markEnded hlive).2
  simp only [lookup_markEnded] at hrow
  split at hrow
  · obtain ⟨old, -, rfl⟩ := Option.map_eq_some_iff.mp hrow
    exact old.valid_markEnded ended _
  · exact h.valid hrow

theorem Sound.live_of_delete {other}
    (hlive : LiveRow { host with rows := host.rows.delete name } other vmAddress process) :
    host.LiveRow other vmAddress process := by
  by_cases heq : other = name
  · obtain ⟨row, hrow, -⟩ := hlive
    simp only [Rows.delete, Lib.lookup_erase, if_pos heq] at hrow
    cases hrow
  · refine h.live_of_same (later_rows _) ?_ hlive
    simp only [Rows.delete, Lib.lookup_erase, if_neg heq]

theorem Sound.delete (name : Str) : Sound subnet { host with rows := host.rows.delete name } := by
  refine h.of_live (fun other row hrow => ?_) fun hlive => h.live_of_delete hlive
  exact h.valid (Lib.of_lookup_erase hrow).2

/-- One row changes, and comes to life only at an address that no other live row has. -/
theorem Sound.update (hlater : host.Later later)
    (hother : ∀ other : Str, other ≠ name → later.rows[other]? = host.rows[other]?)
    (hvalid : ∀ row : Row, later.rows[name]? = some row → row.Valid later.nextProcess)
    (hnew : ∀ {vmAddress process}, later.LiveRow name vmAddress process →
      host.LiveRow name vmAddress process ∨ vmAddress ∈ subnet.vmAddresses ∧
        ∀ {other process'}, host.LiveRow other vmAddress process' → other = name) :
    later.Sound subnet where
  valid := by
    intro other row hrow
    by_cases heq : other = name
    · subst heq
      exact hvalid row hrow
    · rw [hother other heq] at hrow
      exact (h.valid hrow).mono hlater.next_le
  live_mem := by
    intro other vmAddress process hlive
    by_cases heq : other = name
    · subst heq
      rcases hnew hlive with hlive | ⟨hmem, -⟩
      · exact h.live_mem hlive
      · exact hmem
    · exact h.live_mem (h.live_of_same hlater (hother other heq) hlive)
  live_unique := by
    intro first second vmAddress process process' hfirst hsecond
    by_cases heq₁ : first = name
    · by_cases heq₂ : second = name
      · rw [heq₁, heq₂]
      · have hlive := h.live_of_same hlater (hother second heq₂) hsecond
        subst heq₁
        rcases hnew hfirst with hfirst | ⟨-, hfree⟩
        · exact h.live_unique hfirst hlive
        · exact (hfree hlive).symm
    · have hlive := h.live_of_same hlater (hother first heq₁) hfirst
      by_cases heq₂ : second = name
      · subst heq₂
        rcases hnew hsecond with hsecond | ⟨-, hfree⟩
        · exact h.live_unique hlive hsecond
        · exact hfree hlive
      · exact h.live_unique hlive (h.live_of_same hlater (hother second heq₂) hsecond)

end Host

end Cirrocumulus.Node
