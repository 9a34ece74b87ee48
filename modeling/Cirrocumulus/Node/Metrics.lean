/-
# A VM's history

The agent samples the counters of the Node and of each running VM at every tick, and keeps
the rates between them in one series for each name. A series is forgotten when a tick does
not list its name as running. A VM that starts or wakes is one of its own here, also under
a name that another had: its counters begin anew.

Which samples a VM has given is kept beside the recorder. As long as a tick comes between
two VMs of one name, the rates of a name are those between the samples of its VM.
-/

import Cirrocumulus.Lib.Maps
import Cirrocumulus.Lib.Runs
import Cirrocumulus.Lib.Text

namespace Cirrocumulus.Node

open Std (ExtTreeMap)
open Lib List Option

/-! ## Rates -/

/-- `HISTORY`. -/
def history : Nat := 60

/-- Counters that turn into rates between two samples, some nanoseconds apart. -/
class Sample (S : Type) (R : outParam Type) where
  ratesSince : S → S → Nat → R

/-- A counter's growth spread over the time it took, per second. -/
def perSecond (delta elapsed : Nat) : Nat :=
  let rate := delta * 1000 / max (elapsed / 1000000) 1
  if rate < 2 ^ 64 then rate else 2 ^ 64 - 1

structure VmSample where
  cpuUsec : Nat
  memoryBytes : Nat
  ioReadBytes : Nat
  ioWriteBytes : Nat
  rxBytes : Nat
  txBytes : Nat
  deriving DecidableEq

structure VmRates where
  cpuPercent : Rat
  memoryBytes : Nat
  ioReadPerSec : Nat
  ioWritePerSec : Nat
  rxPerSec : Nat
  txPerSec : Nat
  deriving DecidableEq

instance : Sample VmSample VmRates where
  ratesSince sample earlier elapsed :=
    { cpuPercent :=
        ((sample.cpuUsec - earlier.cpuUsec) * 100 : Nat) / (max (elapsed / 1000) 1 : Nat)
      memoryBytes := sample.memoryBytes
      ioReadPerSec := perSecond (sample.ioReadBytes - earlier.ioReadBytes) elapsed
      ioWritePerSec := perSecond (sample.ioWriteBytes - earlier.ioWriteBytes) elapsed
      rxPerSec := perSecond (sample.rxBytes - earlier.rxBytes) elapsed
      txPerSec := perSecond (sample.txBytes - earlier.txBytes) elapsed }

structure NodeSample where
  cpuBusyTicks : Nat
  cpuTotalTicks : Nat
  memoryTotalBytes : Nat
  memoryAvailableBytes : Nat
  rxBytes : Nat
  txBytes : Nat

structure NodeRates where
  cpuPercent : Rat
  memoryUsedBytes : Nat
  memoryTotalBytes : Nat
  rxPerSec : Nat
  txPerSec : Nat

instance : Sample NodeSample NodeRates where
  ratesSince sample earlier elapsed :=
    let busy := sample.cpuBusyTicks - earlier.cpuBusyTicks
    let total := sample.cpuTotalTicks - earlier.cpuTotalTicks
    { cpuPercent := if total = 0 then 0 else (busy * 100 : Nat) / (total : Nat)
      memoryUsedBytes := sample.memoryTotalBytes - sample.memoryAvailableBytes
      memoryTotalBytes := sample.memoryTotalBytes
      rxPerSec := perSecond (sample.rxBytes - earlier.rxBytes) elapsed
      txPerSec := perSecond (sample.txBytes - earlier.txBytes) elapsed }

/-! ## Series -/

section

variable {S R : Type} [Sample S R]

/-- The last rates of the Node or a VM, oldest first. -/
structure Series (S R : Type) where
  last : Option (Nat × S) := none
  rates : List R := []

/-- `Series::record`. -/
def Series.record (series : Series S R) (time : Nat) (sample : S) : Series S R where
  last := some (time, sample)
  rates := match series.last with
    | none => series.rates
    | some (before, earlier) =>
      (if series.rates.length = history then series.rates.tail else series.rates) ++
        [Sample.ratesSince sample earlier (time - before)]

/-- The rates between each sample and the next. -/
def consecutive (samples : List (Nat × S)) : List R :=
  samples.zipWith (fun earlier later => Sample.ratesSince later.2 earlier.2 (later.1 - earlier.1))
    samples.tail

def latest (rates : List R) : List R := rates.drop (rates.length - history)

/-- The series is what samples leave, oldest first. -/
structure Series.Of (series : Series S R) (samples : List (Nat × S)) : Prop where
  last : series.last = samples.getLast?
  rates : series.rates = latest (consecutive samples)

theorem consecutive_append {samples last}
    (hlast : samples.getLast? = some last) (time : Nat) (sample : S) :
    consecutive (samples ++ [(time, sample)]) =
      consecutive samples ++ [Sample.ratesSince sample last.2 (time - last.1)] := by
  induction samples with
  | nil => cases hlast
  | cons first rest ih =>
    cases rest with
    | nil =>
      cases hlast
      rfl
    | cons second rest =>
      rw [getLast?_cons_cons] at hlast
      exact congrArg (_ :: ·) (ih hlast)

omit [Sample S R] in
theorem latest_append (rates : List R) (rate : R) :
    latest (rates ++ [rate]) =
      (if (latest rates).length = history then (latest rates).tail else latest rates) ++
        [rate] := by
  unfold latest
  rw [length_append, length_singleton, drop_append_of_le_length (by grind [history]),
    length_drop, tail_drop]
  by_cases hfull : history ≤ rates.length
  · rw [if_pos (by omega), Nat.sub_add_comm hfull]
  · rw [if_neg (by omega), show rates.length + 1 - history = rates.length - history by omega]

theorem Series.Of.record {series : Series S R} {samples} (h : series.Of samples) (time : Nat)
    (sample : S) : (series.record time sample).Of (samples ++ [(time, sample)]) := by
  refine ⟨by simp [Series.record], ?_⟩
  simp only [Series.record, h.last, h.rates]
  cases hlast : samples.getLast? with
  | none =>
    rw [getLast?_eq_none_iff.mp hlast]
    rfl
  | some last => rw [consecutive_append hlast, latest_append]

end

/-! ## The recorder -/

structure Readings where
  node : Option NodeSample
  /-- Every running VM by name, with its sample if it could be read. -/
  vms : List (Str × Option VmSample)

structure Recorder where
  node : Series NodeSample NodeRates := {}
  vms : ExtTreeMap Str (Series VmSample VmRates) compare := ∅

namespace Recorder

variable {name : Str} {time : Nat} {sample : Option VmSample}
  {readings : List (Str × Option VmSample)} {vms : ExtTreeMap Str (Series VmSample VmRates) compare}

def recordVm (time : Nat) (vms : ExtTreeMap Str (Series VmSample VmRates) compare)
    (reading : Str × Option VmSample) : ExtTreeMap Str (Series VmSample VmRates) compare :=
  match reading.2 with
  | some sample => vms.insert reading.1 ((vms[reading.1]?.getD {}).record time sample)
  | none => vms

variable (recorder : Recorder)

/-- `Recorder::record`. -/
def record (time : Nat) (readings : Readings) : Recorder where
  node := match readings.node with
    | some sample => recorder.node.record time sample
    | none => recorder.node
  vms := readings.vms.foldl (recordVm time)
    (recorder.vms.filter fun name _ => readings.vms.any fun reading => reading.1 == name)

/-- A name's series, which is new if there is none. -/
def series (name : Str) : Series VmSample VmRates :=
  recorder.vms[name]?.getD {}

/-- `Recorder::vm`. -/
def vm (name : Str) : List VmRates :=
  (recorder.vms[name]?.map Series.rates).getD []

theorem vm_eq (name : Str) : recorder.vm name = (recorder.series name).rates := by
  unfold vm series
  cases recorder.vms[name]? <;> rfl

theorem lookup_recordVm (reading : Str × Option VmSample) (hne : name ≠ reading.1) :
    (recordVm time vms reading)[name]? = vms[name]? := by
  unfold recordVm
  split
  · exact lookup_insert_of_ne _ hne
  · rfl

theorem lookup_foldl_of_not_mem (hname : name ∉ readings.map Prod.fst) :
    (readings.foldl (recordVm time) vms)[name]? = vms[name]? := by
  induction readings generalizing vms with
  | nil => rfl
  | cons reading rest ih =>
    rw [map_cons, mem_cons, not_or] at hname
    rw [foldl_cons, ih hname.2, lookup_recordVm reading hname.1]

/-- What a round of readings does to a series. -/
def after (time : Nat) (series : Series VmSample VmRates) :
    Option VmSample → Series VmSample VmRates
  | some sample => series.record time sample
  | none => series

theorem lookup_foldl_of_mem (hnodup : (readings.map Prod.fst).Nodup)
    (hmem : (name, sample) ∈ readings) :
    (readings.foldl (recordVm time) vms)[name]?.getD {} =
      after time (vms[name]?.getD {}) sample := by
  induction readings generalizing vms with
  | nil => cases hmem
  | cons reading rest ih =>
    rw [map_cons, nodup_cons] at hnodup
    rw [foldl_cons]
    rcases mem_cons.mp hmem with rfl | hrest
    · rw [lookup_foldl_of_not_mem hnodup.1, recordVm]
      cases sample with
      | none => rfl
      | some sample => rw [lookup_insert, if_pos rfl, getD_some, after]
    · have hne : name ≠ reading.1 := by
        intro heq
        rw [← heq] at hnodup
        exact hnodup.1 (List.mem_map.mpr ⟨_, hrest, rfl⟩)
      rw [ih hnodup.2 hrest, lookup_recordVm reading hne]

/-- The series of a name that is listed as running. -/
theorem series_record {readings}
    (hnodup : (readings.vms.map Prod.fst).Nodup) (hmem : (name, sample) ∈ readings.vms) :
    (recorder.record time readings).series name = after time (recorder.series name) sample := by
  have hlisted : (readings.vms.any fun reading => reading.1 == name) :=
    List.any_eq_true.mpr ⟨_, hmem, beq_self_eq_true name⟩
  rw [series, record, lookup_foldl_of_mem hnodup hmem, ExtTreeMap.getElem?_filter', hlisted, series]
  cases recorder.vms[name]? <;> rfl

end Recorder

/-! ## VMs and ticks -/

structure Monitor where
  /-- The VM that runs under a name. -/
  running : ExtTreeMap Str Nat compare := ∅
  started : Nat := 0
  recorder : Recorder := {}
  /-- The samples that a name's VM has given, oldest first. -/
  samples : Str → Nat → List (Nat × VmSample) := fun _ _ => []

inductive MonitorEvent
  /-- A VM starts or wakes. -/
  | run (name : Str)
  /-- A VM ends or is parked. -/
  | stop (name : Str)
  | tick (time : Nat) (node : Option NodeSample) (read : Str → Option VmSample)

namespace Monitor

/-- What `Agent::sample` reads: every running VM once. -/
def readings (monitor : Monitor) (node : Option NodeSample) (read : Str → Option VmSample) :
    Readings :=
  ⟨node, monitor.running.toList.map fun vm => (vm.1, read vm.1)⟩

def step (monitor : Monitor) : MonitorEvent → Option Monitor
  | .run name =>
    if name ∈ monitor.running then none
    else some { monitor with
      running := monitor.running.insert name monitor.started
      started := monitor.started + 1 }
  | .stop name =>
    if name ∈ monitor.running then
      some { monitor with running := monitor.running.erase name }
    else none
  | .tick time node read =>
    some { monitor with
      recorder := monitor.recorder.record time (monitor.readings node read)
      samples := fun name vm => monitor.samples name vm ++
        if monitor.running[name]? = some vm then ((read name).map (time, ·)).toList else [] }

/-- A VM starts or wakes under a name only after a tick has forgotten the VM before. -/
def forgotten (monitor : Monitor) : MonitorEvent → Bool
  | .run name => monitor.recorder.vms[name]?.isNone
  | _ => true

/-- The series of each name that runs is that of its VM. -/
structure Own (monitor : Monitor) : Prop where
  series : ∀ (name : Str) (vm : Nat), monitor.running[name]? = some vm →
    (monitor.recorder.series name).Of (monitor.samples name vm)
  unsampled : ∀ name vm, monitor.started ≤ vm → monitor.samples name vm = []
  lt : ∀ (name : Str) (vm : Nat), monitor.running[name]? = some vm → vm < monitor.started

variable {monitor next : Monitor} {event : MonitorEvent}

theorem Own.tick (h : monitor.Own) (time : Nat) (node : Option NodeSample)
    (read : Str → Option VmSample) {name : Str} {vm} (hvm : monitor.running[name]? = some vm) :
    ((monitor.recorder.record time (monitor.readings node read)).series name).Of
      (monitor.samples name vm ++ ((read name).map (time, ·)).toList) := by
  have hnodup : ((monitor.readings node read).vms.map Prod.fst).Nodup := by
    rw [readings, List.map_map]
    have hkeys : (monitor.running.keys).Nodup := ExtTreeMap.nodup_keys
    rwa [← ExtTreeMap.map_fst_toList_eq_keys] at hkeys
  have hmem : (name, read name) ∈ (monitor.readings node read).vms :=
    List.mem_map.mpr ⟨(name, vm), mem_items.mpr hvm, rfl⟩
  rw [Recorder.series_record monitor.recorder hnodup hmem]
  have hbefore := h.series name vm hvm
  cases read name with
  | none => simpa [Recorder.after] using hbefore
  | some sample => exact hbefore.record time sample

theorem Own.step (h : monitor.Own) (hforgotten : monitor.forgotten event)
    (hstep : monitor.step event = some next) : next.Own := by
  cases event with
  | run name =>
    obtain ⟨-, hnext⟩ := ite_none_left_eq_some.mp hstep
    cases hnext
    have hnew : monitor.recorder.vms[name]? = none := isNone_iff_eq_none.mp hforgotten
    refine ⟨fun other vm hvm => ?_, fun other vm hle => ?_, fun other vm hvm => ?_⟩
    · obtain ⟨heq, rfl⟩ | ⟨-, hvm⟩ := of_lookup_insert hvm
      · rw [h.unsampled other _ le_rfl, Recorder.series, heq, hnew]
        exact ⟨rfl, rfl⟩
      · exact h.series other vm hvm
    · exact h.unsampled other vm (Nat.le_of_succ_le hle)
    · obtain ⟨-, rfl⟩ | ⟨-, hvm⟩ := of_lookup_insert hvm
      · exact Nat.lt_succ_self _
      · exact Nat.lt_succ_of_lt (h.lt other vm hvm)
  | stop name =>
    obtain ⟨-, rfl⟩ := ite_some_none_eq_some.mp hstep
    exact ⟨fun other vm hvm => h.series other vm (of_lookup_erase hvm).2, h.unsampled,
      fun other vm hvm => h.lt other vm (of_lookup_erase hvm).2⟩
  | tick time node read =>
    cases hstep
    refine ⟨fun name vm hvm => ?_, fun name vm hle => ?_, h.lt⟩
    · have htick := h.tick time node read hvm
      dsimp only
      rwa [if_pos hvm]
    · have hnot : monitor.running[name]? ≠ some vm := fun hvm =>
        absurd (h.lt name vm hvm) (Nat.not_lt.mpr hle)
      dsimp only
      rw [if_neg hnot, h.unsampled name vm hle, append_nil]

end Monitor

/-- A VM's history is its own: as long as a tick comes between two VMs of one name, the rates of
a running VM's name are the latest of those between its own samples, at most 60 of them, and
there are none until it was sampled twice. -/
theorem history_is_own {schedule : List MonitorEvent} {monitor : Monitor} {name : Str} {vm : Nat}
    (hforgotten : Along Monitor.step (fun monitor event => monitor.forgotten event = true) {}
      schedule) (hrun : run Monitor.step {} schedule = some monitor)
    (hvm : monitor.running[name]? = some vm) :
    monitor.recorder.vm name = latest (consecutive (monitor.samples name vm)) ∧
    (monitor.recorder.vm name).length ≤ 60 ∧
    ((monitor.samples name vm).length < 2 → monitor.recorder.vm name = []) := by
  have hown : monitor.Own :=
    run_preserves (fun hforgotten h hstep => h.step hforgotten hstep)
      (by constructor <;> simp) hforgotten hrun
  have hrates := (monitor.recorder.vm_eq name).trans (hown.series name vm hvm).rates
  refine ⟨hrates, ?_, fun hfew => ?_⟩
  · rw [hrates, latest, length_drop]
    grind [history]
  · have hnone : (consecutive (monitor.samples name vm)).length = 0 := by
      rw [consecutive, length_zipWith, length_tail]
      omega
    rw [hrates, length_eq_zero_iff.mp hnone]
    rfl

/-- A tick that reads the CPU time of every VM as so much. -/
def ticks (seconds cpuUsec : Nat) : MonitorEvent :=
  .tick (seconds * 1000000000) none fun _ => some ⟨cpuUsec, 0, 0, 0, 0, 0⟩

/-- A VM ends before a tick, and the next VM of its name is sampled twice. -/
def reused : List MonitorEvent :=
  [.run "web", ticks 0 500000, .stop "web", ticks 1 0, .run "web", ticks 2 0, ticks 3 500000]

/-- The theorem applies: the second VM has the one rate between its own samples. -/
theorem sampled_vm_has_own_history :
    ∃ monitor, run Monitor.step {} reused = some monitor ∧
      (monitor.samples "web" 0).length = 1 ∧ (monitor.samples "web" 1).length = 2 ∧
      monitor.recorder.vm "web" = latest (consecutive (monitor.samples "web" 1)) := by
  obtain ⟨monitor, hrun, hvm, hbefore, hown⟩ : ∃ monitor, run Monitor.step {} reused =
      some monitor ∧ monitor.running["web".toList]? = some 1 ∧
        (monitor.samples "web" 0).length = 1 ∧ (monitor.samples "web" 1).length = 2 :=
    ⟨_, rfl, by decide +kernel⟩
  exact ⟨monitor, hrun, hbefore, hown, (history_is_own (by decide +kernel) hrun hvm).1⟩

/-- A VM ends between two ticks, and another starts under its name: once it is sampled, it has
a rate since the sample of the other. -/
theorem second_vm_inherits_history :
    ∃ monitor, run Monitor.step {} [.run "web", ticks 0 500000, .stop "web",
        .run "web", ticks 1 600000] = some monitor ∧
      monitor.running["web".toList]? = some 1 ∧
      monitor.samples "web" 1 = [(1000000000, ⟨600000, 0, 0, 0, 0, 0⟩)] ∧
      monitor.recorder.vm "web" = [⟨10, 0, 0, 0, 0, 0⟩] :=
  ⟨_, rfl, by decide, by decide, by decide +kernel⟩

end Cirrocumulus.Node
