/-
# Idle park and traffic

One running VM as the edge and the idle parker see it. Requests take the VM
table's lock to be counted in, but finish outside it: first the time of the last
finish is set, then the counter goes down. The idle parker holds the lock while it
reads the counter, then the time, and then claims the park.

The ghost part of the state remembers every request ever routed, and for a claim
of the idle parker when it was taken and how many requests there had been.

Setting the time of the last finish is one step here. In the code the clock is read
just before the time is stored, so a thread that is stopped in between stores a time
that is older by as long as it was stopped.

A lease belongs to a client connection that the edge serves one request at a time,
so the number of leases at one moment is bounded by what the operating system lets
the agent hold open. The bound is a parameter.
-/

import Cirrocumulus.Lib.Runs
import Mathlib.Algebra.Group.Nat.Defs
import Mathlib.Data.List.Basic
import Mathlib.Order.Nat

namespace Cirrocumulus.Node

open List Option

/-- A request that was given a lease on the VM. -/
structure Request where
  /-- When it set the time of the last finish, if it has. -/
  finished : Option Nat
  /-- Whether it was counted out. -/
  dropped : Bool
  deriving DecidableEq

/-- The idle check, while it holds the VM table's lock. -/
inductive Check
  /-- It read 0 from the counter, for an idle time. -/
  | counted (idle : Nat)
  /-- It found the VM idle. -/
  | idle (idle : Nat)
  /-- It is done with this VM. -/
  | done
  deriving DecidableEq

/-- Who holds the right to park the VM. -/
inductive ParkClaim
  /-- The idle parker, for an idle time. Ghost: when it was taken, and the number of
  requests routed until then. -/
  | idle (idle takenAt routed : Nat)
  | manual
  deriving DecidableEq

/-- `Traffic` of one running VM, with the clock and the lock. -/
structure Traffic where
  now : Nat
  inFlight : Nat
  last : Nat
  parking : Bool
  /-- The idle check that holds the VM table's lock. Other holders keep it for one
  step only. -/
  lock : Option Check
  claim : Option ParkClaim
  requests : List Request
  deriving DecidableEq

/-- `Traffic::new`. -/
def Traffic.new (now : Nat) : Traffic := ⟨now, 0, now, false, none, none, []⟩

inductive TrafficEvent
  /-- Time passes. -/
  | wait (duration : Nat)
  /-- `step_for` with a request for the VM. -/
  | stepFor
  /-- `InFlight::drop` of a request, its first and its second step. -/
  | setLast (request : Nat)
  | decrement (request : Nat)
  /-- `idle_for`: take the table's lock and read the counter, then the time. -/
  | readCounter (idle : Nat)
  | readTime
  /-- `ParkClaim::take` of the idle parker. -/
  | claimIdle
  | unlock
  /-- `claim_park`. -/
  | claimPark
  /-- `ParkClaim::drop`. -/
  | release
  /-- A failed park of the idle parker gives the VM a whole idle time. -/
  | parkFailed
  deriving DecidableEq

/-- The requests that are counted in. -/
def Traffic.live (s : Traffic) : Nat := s.requests.countP fun request => !request.dropped

/-- One step. The counter is a 32-bit number that wraps. -/
def Traffic.step (maxLeases : Nat) (s : Traffic) : TrafficEvent → Option Traffic
  | .wait duration => some { s with now := s.now + duration }
  | .stepFor =>
    if s.lock.isSome then none
    -- The request is held until the park ends.
    else if s.parking then some s
    else if s.live < maxLeases then
      some { s with
        inFlight := (s.inFlight + 1) % 2 ^ 32
        requests := s.requests ++ [⟨none, false⟩] }
    else none
  | .setLast i =>
    match s.requests[i]? with
    | some ⟨none, false⟩ =>
      some { s with last := s.now, requests := s.requests.set i ⟨some s.now, false⟩ }
    | _ => none
  | .decrement i =>
    match s.requests[i]? with
    | some ⟨some finished, false⟩ =>
      some { s with
        inFlight := (s.inFlight + 2 ^ 32 - 1) % 2 ^ 32
        requests := s.requests.set i ⟨some finished, true⟩ }
    | _ => none
  | .readCounter idle =>
    if s.lock.isSome then none
    else some { s with lock := some (if s.inFlight = 0 then .counted idle else .done) }
  | .readTime =>
    match s.lock with
    | some (.counted idle) =>
      some { s with lock := some (if s.last + idle ≤ s.now then .idle idle else .done) }
    | _ => none
  | .claimIdle =>
    match s.lock with
    | some (.idle idle) =>
      if s.parking then some { s with lock := some .done }
      else some { s with
        lock := some .done
        parking := true
        claim := some (.idle idle s.now s.requests.length) }
    | _ => none
  | .unlock => if s.lock = some .done then some { s with lock := none } else none
  | .claimPark =>
    if s.lock.isSome then none
    else if s.parking then some s
    else some { s with parking := true, claim := some .manual }
  | .release =>
    if s.claim.isSome then some { s with parking := false, claim := none } else none
  | .parkFailed => some { s with last := s.now }

/-! ## What the idle parker relies on -/

/-- Every request was counted out, and finished at least `idle` before `time`. -/
def QuietSince (requests : List Request) (idle time : Nat) : Prop :=
  ∀ request ∈ requests, request.dropped = true ∧
    ∃ finished, request.finished = some finished ∧ finished + idle ≤ time

theorem QuietSince.mono {requests idle time later}
    (h : QuietSince requests idle time) (hle : time ≤ later) : QuietSince requests idle later := by
  intro request hrequest
  obtain ⟨hdropped, finished, hfinished, htime⟩ := h request hrequest
  exact ⟨hdropped, finished, hfinished, htime.trans hle⟩

variable {s : Traffic}

theorem Traffic.live_eq_zero_iff : s.live = 0 ↔ ∀ request ∈ s.requests, request.dropped := by
  simp [live, countP_eq_zero]

theorem QuietSince.live_eq_zero {idle time} (h : QuietSince s.requests idle time) : s.live = 0 :=
  Traffic.live_eq_zero_iff.mpr fun request hrequest => (h request hrequest).1

/-- A request that is still counted in. -/
theorem Traffic.live_pos {i : Nat} {finished}
    (h : s.requests[i]? = some ⟨finished, false⟩) : 0 < s.live := by
  rw [Nat.pos_iff_ne_zero]
  intro hzero
  have hdropped := live_eq_zero_iff.mp hzero _ (mem_of_getElem? h)
  cases hdropped

/-- The invariant of one VM's traffic. -/
structure Traffic.Inv (maxLeases : Nat) (s : Traffic) : Prop where
  parking_eq : s.parking = s.claim.isSome
  live_le : s.live ≤ maxLeases
  inFlight_eq : s.inFlight = s.live % 2 ^ 32
  last_le : s.last ≤ s.now
  finished_le : ∀ request ∈ s.requests, ∀ finished, request.finished = some finished →
    finished ≤ s.last
  finished_of_dropped : ∀ request ∈ s.requests, request.dropped →
    request.finished.isSome
  /-- Nothing can be routed while the check holds the lock. -/
  counted : ∀ idle, s.lock = some (.counted idle) → s.live = 0
  idle : ∀ idle, s.lock = some (.idle idle) → QuietSince s.requests idle s.now
  claimed : ∀ idle takenAt routed, s.claim = some (.idle idle takenAt routed) →
    s.requests.length = routed ∧ QuietSince s.requests idle takenAt

theorem Traffic.Inv.new (maxLeases now : Nat) : (Traffic.new now).Inv maxLeases := by
  constructor <;> simp [Traffic.new, Traffic.live]

namespace Traffic.Inv

variable {maxLeases : Nat} {s : Traffic} (h : s.Inv maxLeases)
include h

variable {idle i : Nat}

/-- A step of a request that is counted in. Nobody found the VM idle meanwhile. -/
theorem set {finished} (hi : s.requests[i]? = some ⟨finished, false⟩)
    {request : Request} {inFlight last : Nat} (hlast : s.last ≤ last) (hnow : last ≤ s.now)
    (hfinished : ∀ time, request.finished = some time → time ≤ last)
    (hdropped : request.dropped → request.finished.isSome)
    (hcount : inFlight = (s.live - 1 + if request.dropped then 0 else 1) % 2 ^ 32) :
    Traffic.Inv maxLeases
      { s with inFlight, last, requests := s.requests.set i request } := by
  have hpos := live_pos hi
  have hne : s.live ≠ 0 := Nat.pos_iff_ne_zero.mp hpos
  obtain ⟨hlt, hget⟩ := List.getElem?_eq_some_iff.mp hi
  have hlive : (s.requests.set i request).countP (fun request => !request.dropped) =
      s.live - 1 + if request.dropped then 0 else 1 := by
    rw [countP_set hlt, hget]
    cases request.dropped <;> simp [live]
  have hle := h.live_le
  constructor
  · exact h.parking_eq
  · rw [live, hlive]
    split <;> omega
  · rw [live, hlive, hcount]
  · exact hnow
  · intro other hother time htime
    rcases mem_or_eq_of_mem_set hother with hmem | rfl
    · exact (h.finished_le other hmem time htime).trans hlast
    · exact hfinished time htime
  · intro other hother hdrop
    rcases mem_or_eq_of_mem_set hother with hmem | rfl
    · exact h.finished_of_dropped other hmem hdrop
    · exact hdropped hdrop
  · exact fun idle hlock => absurd (h.counted idle hlock) hne
  · exact fun idle hlock => absurd (h.idle idle hlock).live_eq_zero hne
  · exact fun idle takenAt routed hclaim =>
      absurd (h.claimed idle takenAt routed hclaim).2.live_eq_zero hne

/-- The first step of a drop. The time of the last finish only grows. -/
theorem setLast (hi : s.requests[i]? = some ⟨none, false⟩) : Traffic.Inv maxLeases
      { s with last := s.now, requests := s.requests.set i ⟨some s.now, false⟩ } := by
  refine h.set hi h.last_le le_rfl ?_ (fun _ => rfl) ?_
  · rintro time ⟨⟩
    exact le_rfl
  · have hpos := live_pos hi
    have hcount := h.inFlight_eq
    simp only [Bool.false_eq_true, if_false]
    omega

/-- The second step of a drop. -/
theorem decrement {finished : Nat} (hi : s.requests[i]? = some ⟨some finished, false⟩) :
    Traffic.Inv maxLeases
      { s with
        inFlight := (s.inFlight + 2 ^ 32 - 1) % 2 ^ 32
        requests := s.requests.set i ⟨some finished, true⟩ } := by
  refine h.set hi le_rfl h.last_le ?_ (fun _ => rfl) ?_
  · rintro time ⟨⟩
    exact h.finished_le _ (mem_of_getElem? hi) finished rfl
  · have hpos := live_pos hi
    have hcount := h.inFlight_eq
    simp only [if_true]
    omega

/-- A request that is given a lease, while nobody else has the lock or the claim. -/
theorem stepFor (hlock : s.lock = none) (hparking : s.parking = false)
    (hmore : s.live < maxLeases) :
    Traffic.Inv maxLeases
      { s with
        inFlight := (s.inFlight + 1) % 2 ^ 32
        requests := s.requests ++ [⟨none, false⟩] } := by
  have hclaim : s.claim = none := by
    have := h.parking_eq
    rw [hparking] at this
    simpa using this.symm
  have hlive : List.countP (fun request : Request => !request.dropped)
      (s.requests ++ [⟨none, false⟩]) = s.live + 1 := by
    simp [live]
  have hcount := h.inFlight_eq
  constructor
  · exact h.parking_eq
  · rw [live, hlive]
    omega
  · rw [live, hlive]
    dsimp only
    omega
  · exact h.last_le
  · intro request hrequest finished hfinished
    rcases mem_append.mp hrequest with hmem | hmem
    · exact h.finished_le request hmem finished hfinished
    · cases mem_singleton.mp hmem
      cases hfinished
  · intro request hrequest hdropped
    rcases mem_append.mp hrequest with hmem | hmem
    · exact h.finished_of_dropped request hmem hdropped
    · cases mem_singleton.mp hmem
      cases hdropped
  · exact fun idle hlocked => by cases hlock.symm.trans hlocked
  · exact fun idle hlocked => by cases hlock.symm.trans hlocked
  · exact fun idle takenAt routed hclaimed => by cases hclaim.symm.trans hclaimed

/-- The check that found nothing counted in and then a last finish long enough ago
knows that every request finished that long ago. -/
theorem quietSince (hlock : s.lock = some (.counted idle))
    (htime : s.last + idle ≤ s.now) : QuietSince s.requests idle s.now := by
  intro request hrequest
  have hdropped := live_eq_zero_iff.mp (h.counted idle hlock) request hrequest
  obtain ⟨finished, hfinished⟩ :=
    isSome_iff_exists.mp (h.finished_of_dropped request hrequest hdropped)
  have hle := h.finished_le request hrequest finished hfinished
  exact ⟨hdropped, finished, hfinished, by omega⟩

/-- The check is done with the VM. -/
theorem unlocked {lock} (hlock : lock = none ∨ lock = some .done) :
    Traffic.Inv maxLeases { s with lock } := by
  rcases hlock with rfl | rfl
  all_goals exact { h with counted := fun _ hlock => by cases hlock
                           idle := fun _ hlock => by cases hlock }

/-- The counter reads 0 only if nothing is counted in, as long as it can hold all leases. -/
theorem readCounter (hmax : maxLeases < 2 ^ 32) (idle : Nat) :
    Traffic.Inv maxLeases
      { s with lock := some (if s.inFlight = 0 then .counted idle else .done) } := by
  split
  · have hcount := h.inFlight_eq
    have hle := h.live_le
    refine { h with counted := fun other _ => ?_, idle := fun other hlock => by cases hlock }
    show s.live = 0
    omega
  · exact h.unlocked (.inr rfl)

theorem readTime (hlock : s.lock = some (.counted idle)) : Traffic.Inv maxLeases
      { s with lock := some (if s.last + idle ≤ s.now then .idle idle else .done) } := by
  split
  · rename_i htime
    refine { h with idle := fun other hidle => ?_, counted := fun other hlock => by cases hlock }
    cases hidle
    exact h.quietSince hlock htime
  · exact h.unlocked (.inr rfl)

theorem claimIdle (hlock : s.lock = some (.idle idle)) : Traffic.Inv maxLeases
      { s with
        lock := some .done
        parking := true
        claim := some (.idle idle s.now s.requests.length) } := by
  refine { h.unlocked (.inr rfl) with
    parking_eq := rfl, claimed := fun other takenAt routed hclaim => ?_ }
  cases hclaim
  exact ⟨rfl, h.idle idle hlock⟩

end Traffic.Inv

/-- One step keeps the invariant. -/
theorem Traffic.Inv.step {maxLeases} (hmax : maxLeases < 2 ^ 32) {next : Traffic} {event}
    (h : s.Inv maxLeases) (hstep : s.step maxLeases event = some next) : next.Inv maxLeases := by
  cases event with
  | wait duration =>
    cases hstep
    exact { h with
      last_le := h.last_le.trans (Nat.le_add_right _ _)
      idle := fun idle hlock => (h.idle idle hlock).mono (Nat.le_add_right _ _) }
  | stepFor =>
    obtain ⟨hlock, hstep⟩ := ite_none_left_eq_some.mp hstep
    split at hstep
    · cases hstep
      exact h
    · rename_i hparking
      obtain ⟨hmore, rfl⟩ := ite_some_none_eq_some.mp hstep
      exact h.stepFor (by simpa using hlock) (by simpa using hparking) hmore
  | setLast i =>
    simp only [Traffic.step] at hstep
    split at hstep
    · rename_i hi
      cases hstep
      exact h.setLast hi
    · cases hstep
  | decrement i =>
    simp only [Traffic.step] at hstep
    split at hstep
    · rename_i finished hi
      cases hstep
      exact h.decrement hi
    · cases hstep
  | readCounter idle =>
    obtain ⟨-, hstep⟩ := ite_none_left_eq_some.mp hstep
    cases hstep
    exact h.readCounter hmax idle
  | readTime =>
    simp only [Traffic.step] at hstep
    split at hstep
    · rename_i idle hlock
      cases hstep
      exact h.readTime hlock
    · cases hstep
  | claimIdle =>
    simp only [Traffic.step] at hstep
    split at hstep
    · rename_i idle hlock
      split at hstep
      · cases hstep
        exact h.unlocked (.inr rfl)
      · cases hstep
        exact h.claimIdle hlock
    · cases hstep
  | unlock =>
    obtain ⟨-, rfl⟩ := ite_some_none_eq_some.mp hstep
    exact h.unlocked (.inl rfl)
  | claimPark =>
    obtain ⟨-, hstep⟩ := ite_none_left_eq_some.mp hstep
    split at hstep
    · cases hstep
      exact h
    · cases hstep
      exact { h with parking_eq := rfl, claimed := fun _ _ _ hclaim => by cases hclaim }
  | release =>
    obtain ⟨-, rfl⟩ := ite_some_none_eq_some.mp hstep
    exact { h with parking_eq := rfl, claimed := fun _ _ _ hclaim => by cases hclaim }
  | parkFailed =>
    cases hstep
    exact { h with
      last_le := le_rfl
      finished_le := fun request hrequest finished hfinished =>
        (h.finished_le request hrequest finished hfinished).trans h.last_le }

/-- While the idle parker holds the claim it took at `takenAt` for idle time `idle`,
nothing is in flight, no request was given a lease since, and every request ever
routed had finished at least `idle` before. `maxLeases` is what the operating
system lets the agent hold open: each lease belongs to an open client connection,
and descriptors are C ints. -/
theorem idleClaim_quiet {maxLeases : Nat} (hmax : maxLeases < 2 ^ 32) {start : Nat}
    {schedule : List TrafficEvent} {s : Traffic}
    (hrun : Lib.run (Traffic.step maxLeases) (Traffic.new start) schedule = some s)
    {idle takenAt routed : Nat} (hclaim : s.claim = some (.idle idle takenAt routed)) :
    s.inFlight = 0 ∧ s.live = 0 ∧ s.requests.length = routed ∧
      ∀ request ∈ s.requests, ∃ finished, request.finished = some finished ∧
        finished + idle ≤ takenAt := by
  have hinv : s.Inv maxLeases :=
    Lib.run_preserves_all (fun h hstep => h.step hmax hstep) (.new maxLeases start) hrun
  obtain ⟨hrouted, hquiet⟩ := hinv.claimed idle takenAt routed hclaim
  have hlive := hquiet.live_eq_zero
  refine ⟨?_, hlive, hrouted, fun request hrequest => (hquiet request hrequest).2⟩
  rw [hinv.inFlight_eq, hlive, Nat.zero_mod]

/-- The traffic of a VM that the idle parker claimed ten after its only request. -/
def claimedTraffic : Traffic :=
  ⟨15, 0, 5, true, some .done, some (.idle 10 15 1), [⟨some 5, true⟩]⟩

theorem idleClaim_quiet_after_request :
    Lib.run (Traffic.step 65536) (Traffic.new 0)
        [.stepFor, .wait 5, .setLast 0, .decrement 0, .wait 10, .readCounter 10, .readTime,
          .claimIdle] = some claimedTraffic ∧
      claimedTraffic.inFlight = 0 ∧ claimedTraffic.live = 0 ∧
      claimedTraffic.requests.length = 1 ∧
      ∀ request ∈ claimedTraffic.requests, ∃ finished, request.finished = some finished ∧
        finished + 10 ≤ 15 := by
  refine ⟨?hrun, idleClaim_quiet (by decide) ?hrun rfl⟩
  decide +kernel

end Cirrocumulus.Node
