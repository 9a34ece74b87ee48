/-
# Orders for certificates

`ensure` may be called for a hostname by any number of tasks at once. A call looks at the
hostname's certificate, then at its last failure, and then puts the hostname among those
that have an order under way, each under a lock of its own. What the order adds to the
shared collections is taken back when it is dropped, however it ended.

Each step is what happens under one lock. A dropped order holds the lock of the challenges
until it is out of the orders under way, so that is one step. Times are in seconds: those of
retries are read off a clock that only goes on, those of certificates off the system's.
-/

import Cirrocumulus.Lib.Pools
import Cirrocumulus.Lib.Runs
import Cirrocumulus.Lib.Text

namespace Cirrocumulus.HttpEdge

open Std (ExtTreeMap)
open Lib List Option

/-- `RENEW_WITHIN`, `FIRST_RETRY_AFTER` and `MAX_RETRY_AFTER`. -/
def renewWithin : Nat := 30 * 24 * 60 * 60
def firstRetryAfter : Nat := 5 * 60
def maxRetryAfter : Nat := 6 * 60 * 60

/-- Where a call of `ensure` stands. -/
inductive CallPc
  | checkCertificate
  | checkFailed (fresh : Bool)
  | start
  | ordering
  /-- The order gave a certificate, which expires then: its failures are forgotten. -/
  | succeeded (expires : Nat)
  | storing (expires : Nat)
  | failed
  | dropping
  | returned
  deriving DecidableEq

/-- The call has an order that is not dropped yet. -/
def CallPc.underWay : CallPc → Bool
  | .ordering | .succeeded _ | .storing _ | .failed | .dropping => true
  | .checkCertificate | .checkFailed _ | .start | .returned => false

/-- The call has looked at the certificate, and has yet to start its order. -/
def CallPc.checking : CallPc → Bool
  | .checkFailed _ | .start => true
  | _ => false

/-- The call is about to put the end of its order on record. -/
def CallPc.recording : CallPc → Bool
  | .storing _ | .failed => true
  | _ => false

/-- A call, with what its order has answered, the last answer first. -/
structure Call where
  host : Str
  pc : CallPc
  answered : List (Str × Str)
  deriving DecidableEq

/-- How an order ended. -/
structure Result where
  host : Str
  ok : Bool
  time : Nat
  deriving DecidableEq

structure Acme where
  challenges : ExtTreeMap Str Str compare
  /-- When each hostname's certificate expires. -/
  certificates : ExtTreeMap Str Nat compare
  ordering : List Str
  /-- When to try again, and how long that was to wait. -/
  failed : ExtTreeMap Str (Nat × Nat) compare
  calls : ExtTreeMap Nat Call compare
  /-- The orders that ended, the last first. -/
  results : List Result
  clock : Nat
  systemTime : Nat

namespace Acme

/-- `Acme::load`. -/
def load (certificates : ExtTreeMap Str Nat compare) (clock systemTime : Nat) : Acme :=
  ⟨∅, certificates, [], ∅, ∅, [], clock, systemTime⟩

variable (acme : Acme)

/-- `Acme::challenge`. -/
def challenge (token : Str) : Option Str := acme.challenges[token]?

/-- The stored certificate has more than a month left. -/
def fresh (host : Str) : Bool :=
  acme.certificates[host]?.any fun expires => acme.systemTime + renewWithin < expires

/-- The last failed order is too recent to try again. -/
def waiting (host : Str) : Bool :=
  acme.failed[host]?.any fun failure => acme.clock < failure.1

def setCall (id : Nat) (call : Call) : Acme :=
  { acme with calls := acme.calls.insert id call }

/-- `PendingOrder::start`. -/
def startOrder (id : Nat) (call : Call) : Acme :=
  if acme.ordering.contains call.host then acme.setCall id { call with pc := .returned }
  else { acme.setCall id { call with pc := .ordering, answered := [] } with
    ordering := call.host :: acme.ordering }

/-- `PendingOrder::answer`. -/
def answer (id : Nat) (call : Call) (token auth : Str) : Acme :=
  { acme.setCall id { call with answered := (token, auth) :: call.answered } with
    challenges := acme.challenges.insert token auth }

/-- `PendingOrder::drop`. -/
def dropOrder (id : Nat) (call : Call) : Acme :=
  { acme.setCall id { call with pc := .returned } with
    challenges := (call.answered.map Prod.fst).foldl ExtTreeMap.erase acme.challenges
    ordering := acme.ordering.filter (· ≠ call.host) }

/-- How long to wait after a failure. -/
def retryAfter (host : Str) : Nat :=
  match acme.failed[host]? with
  | none => firstRetryAfter
  | some (_, last) => min (last * 2) maxRetryAfter

/-- What a call does under the next lock that it takes. -/
def proceed (id : Nat) (call : Call) : Option Acme :=
  match call.pc with
  | .checkCertificate =>
    some (acme.setCall id { call with pc := .checkFailed (acme.fresh call.host) })
  | .checkFailed fresh =>
    some (acme.setCall id
      { call with pc := if fresh || acme.waiting call.host then .returned else .start })
  | .start => some (acme.startOrder id call)
  | .succeeded expires =>
    some { acme.setCall id { call with pc := .storing expires } with
      failed := acme.failed.erase call.host
      results := ⟨call.host, true, acme.clock⟩ :: acme.results }
  | .storing expires =>
    some { acme.setCall id { call with pc := .dropping } with
      certificates := acme.certificates.insert call.host expires }
  | .failed =>
    let wait := acme.retryAfter call.host
    some { acme.setCall id { call with pc := .dropping } with
      failed := acme.failed.insert call.host (acme.clock + wait, wait)
      results := ⟨call.host, false, acme.clock⟩ :: acme.results }
  | .dropping => some (acme.dropOrder id call)
  | .ordering | .returned => none

end Acme

inductive AcmeEvent
  | passes (clock systemTime : Nat)
  | ensure (id : Nat) (host : Str)
  | proceed (id : Nat)
  /-- The order answers a challenge of the CA's. -/
  | answer (id : Nat) (token auth : Str)
  /-- The order is over: it gives a certificate, which expires then, or fails. -/
  | ordered (id : Nat) (certificate : Option Nat)
  /-- The task is cancelled, or panics, in the midst of the order. -/
  | aborted (id : Nat)
  deriving DecidableEq

namespace Acme

def step (acme : Acme) : AcmeEvent → Option Acme
  | .passes clock systemTime =>
    if acme.clock ≤ clock then some { acme with clock, systemTime } else none
  | .ensure id host =>
    match acme.calls[id]? with
    | none => some (acme.setCall id ⟨host, .checkCertificate, []⟩)
    | some _ => none
  | .proceed id => acme.calls[id]?.bind (acme.proceed id)
  | .answer id token auth =>
    (acme.calls[id]?.filter (·.pc = .ordering)).map fun call => acme.answer id call token auth
  | .ordered id certificate =>
    (acme.calls[id]?.filter (·.pc = .ordering)).map fun call =>
      acme.setCall id { call with pc := certificate.elim .failed .succeeded }
  | .aborted id =>
    (acme.calls[id]?.filter (·.pc = .ordering)).map fun call => acme.dropOrder id call

/-! ## What the orders under way hold -/

variable {acme next : Acme} {id : Nat} {call : Call} {event : AcmeEvent}

/-- What a call leaves on record of an order that ended. -/
inductive Records (acme : Acme) (call : Call) :
    ExtTreeMap Str Nat compare → ExtTreeMap Str (Nat × Nat) compare → List Result → Prop
  | nothing : Records acme call acme.certificates acme.failed acme.results
  | succeeded {expires} (hpc : call.pc = .succeeded expires) :
      Records acme call acme.certificates (acme.failed.erase call.host)
        (⟨call.host, true, acme.clock⟩ :: acme.results)
  | stored {expires} (hpc : call.pc = .storing expires) :
      Records acme call (acme.certificates.insert call.host expires) acme.failed acme.results
  | failed (hpc : call.pc = .failed) : Records acme call acme.certificates
      (acme.failed.insert call.host (acme.clock + acme.retryAfter call.host,
        acme.retryAfter call.host)) (⟨call.host, false, acme.clock⟩ :: acme.results)

/-- What a call found out still holds: the certificate is not fresh, and, once it has looked
at that, the last failure is not recent. -/
structure ClearFor (acme : Acme) (call : Call) : Prop where
  fresh : call.pc = .checkFailed false ∨ call.pc = .start → acme.fresh call.host = false
  waiting : call.pc = .start → acme.waiting call.host = false

/-- What a step does. -/
inductive Move (acme : Acme) : AcmeEvent → Acme → Prop
  | passes {clock systemTime : Nat} (hclock : acme.clock ≤ clock) :
      Move acme (.passes clock systemTime) { acme with clock, systemTime }
  | begins {event : AcmeEvent} {id host} (hnew : acme.calls[id]? = none) :
      Move acme event (acme.setCall id ⟨host, .checkCertificate, []⟩)
  | goesOn {event : AcmeEvent} {id call pc certificates failed results}
      (hcall : acme.calls[id]? = some call) (hunder : pc.underWay = call.pc.underWay)
      (hclear : acme.ClearFor call → acme.ClearFor { call with pc })
      (hrecords : acme.Records call certificates failed results)
      (hevent : call.pc ≠ .ordering → event = .proceed id) :
      Move acme event { acme.setCall id { call with pc } with certificates, failed, results }
  | starts {event : AcmeEvent} {id call} (hcall : acme.calls[id]? = some call)
      (hidle : call.pc.underWay = false) (hfree : call.host ∉ acme.ordering) :
      Move acme event { acme.setCall id { call with pc := .ordering, answered := [] } with
        ordering := call.host :: acme.ordering }
  | answers {id : Nat} {call token auth} (hcall : acme.calls[id]? = some call)
      (hpc : call.pc = .ordering) :
      Move acme (.answer id token auth) (acme.answer id call token auth)
  | drops {event : AcmeEvent} {id call} (hcall : acme.calls[id]? = some call)
      (hunder : call.pc.underWay) : Move acme event (acme.dropOrder id call)

theorem ClearFor.of_not_checking (h : call.pc.checking = false) : acme.ClearFor call := by
  constructor
  · rintro (hpc | hpc) <;> simp [hpc, CallPc.checking] at h
  · intro hpc
    simp [hpc, CallPc.checking] at h

theorem move_of_proceed (hcall : acme.calls[id]? = some call)
    (hstep : acme.proceed id call = some next) : acme.Move (.proceed id) next := by
  unfold proceed at hstep
  split at hstep
  · rename_i hpc
    cases hstep
    refine .goesOn hcall (by rw [hpc]; rfl) (fun _ => ⟨?_, by rintro ⟨⟩⟩) .nothing fun _ => rfl
    rintro (hfresh | hstart)
    · exact CallPc.checkFailed.inj hfresh
    · cases hstart
  · rename_i fresh hpc
    cases hstep
    by_cases hclear : (fresh || acme.waiting call.host)
    · rw [if_pos hclear]
      exact .goesOn hcall (by rw [hpc]; rfl) (fun _ => .of_not_checking rfl) .nothing fun _ => rfl
    · rw [if_neg hclear]
      rw [Bool.not_eq_true, Bool.or_eq_false_iff] at hclear
      refine .goesOn hcall (by rw [hpc]; rfl) (fun h => ⟨fun _ => ?_, fun _ => hclear.2⟩) .nothing
        fun _ => rfl
      exact h.fresh (.inl (hclear.1 ▸ hpc))
  · rename_i hpc
    cases hstep
    unfold startOrder
    split
    · exact .goesOn hcall (by rw [hpc]; rfl) (fun _ => .of_not_checking rfl) .nothing fun _ => rfl
    · rename_i hfree
      exact .starts hcall (by rw [hpc]; rfl) (by simpa using hfree)
  · rename_i hpc
    cases hstep
    exact .goesOn hcall (by rw [hpc]; rfl) (fun _ => .of_not_checking rfl) (.succeeded hpc)
      fun _ => rfl
  · rename_i hpc
    cases hstep
    exact .goesOn hcall (by rw [hpc]; rfl) (fun _ => .of_not_checking rfl) (.stored hpc)
      fun _ => rfl
  · rename_i hpc
    cases hstep
    exact .goesOn hcall (by rw [hpc]; rfl) (fun _ => .of_not_checking rfl) (.failed hpc)
      fun _ => rfl
  · rename_i hpc
    cases hstep
    exact .drops hcall (by rw [hpc]; rfl)
  · cases hstep
  · cases hstep

theorem move_of_step (hstep : acme.step event = some next) : acme.Move event next := by
  cases event with
  | passes clock systemTime =>
    obtain ⟨hclock, rfl⟩ := ite_some_none_eq_some.mp hstep
    exact .passes hclock
  | ensure id host =>
    simp only [step] at hstep
    split at hstep
    · rename_i hnew
      cases hstep
      exact .begins hnew
    · cases hstep
  | proceed id =>
    obtain ⟨call, hcall, hstep⟩ := bind_eq_some_iff.mp hstep
    exact move_of_proceed hcall hstep
  | answer id token auth =>
    obtain ⟨call, hcall, rfl⟩ := map_eq_some_iff.mp hstep
    obtain ⟨hcall, hpc⟩ := filter_eq_some_iff.mp hcall
    exact .answers hcall (of_decide_eq_true hpc)
  | ordered id certificate =>
    obtain ⟨call, hcall, rfl⟩ := map_eq_some_iff.mp hstep
    obtain ⟨hcall, hpc⟩ := filter_eq_some_iff.mp hcall
    have hpc := of_decide_eq_true hpc
    refine .goesOn hcall ?_ (fun _ => .of_not_checking ?_) .nothing fun hne => absurd hpc hne
    · rw [hpc]
      cases certificate <;> rfl
    · cases certificate <;> rfl
  | aborted id =>
    obtain ⟨call, hcall, rfl⟩ := map_eq_some_iff.mp hstep
    obtain ⟨hcall, hpc⟩ := filter_eq_some_iff.mp hcall
    exact .drops hcall (by rw [of_decide_eq_true hpc]; rfl)

/-- The call has an order under way for the hostname. -/
def OrdersFor (call : Call) (host : Str) (_ : Unit) : Prop :=
  call.pc.underWay = true ∧ call.host = host

/-- The call has an order under way that answered the token so. -/
def Serves (call : Call) (token auth : Str) : Prop :=
  call.pc.underWay = true ∧ call.answered.lookup token = some auth

/-- The hostnames with an order under way are those of the calls. -/
def Exclusive (acme : Acme) : Prop :=
  Lib.Pooled acme.calls OrdersFor fun host _ => host ∈ acme.ordering

/-- The challenges that are answered are those of the calls. -/
def Served (acme : Acme) : Prop :=
  Lib.Pooled acme.calls Serves fun token auth => acme.challenge token = some auth

theorem underWay_returned : CallPc.returned.underWay = false := rfl

theorem Exclusive.step (h : acme.Exclusive) (hstep : acme.step event = some next) :
    next.Exclusive := by
  unfold Exclusive at h ⊢
  cases move_of_step hstep with
  | passes => exact h
  | begins hnew =>
    apply h.insert <;> simp [OrdersFor, CallPc.underWay, setCall, hnew]
  | goesOn hcall hunder =>
    exact h.update hcall fun host _ => by simp only [OrdersFor, hunder]
  | starts hcall hidle hfree =>
    apply h.insert <;> grind [OrdersFor, CallPc.underWay]
  | answers hcall => exact h.update hcall fun host _ => Iff.rfl
  | drops hcall hunder =>
    apply h.insert
    · intro host _
      simp [OrdersFor, dropOrder, hcall, hunder, underWay_returned, @eq_comm _ host]
    · simp [OrdersFor, underWay_returned]

theorem mem_tokens_iff {answered : List (Str × Str)} {token} :
    token ∈ answered.map Prod.fst ↔ ∃ auth, answered.lookup token = some auth := by
  induction answered with
  | nil => simp
  | cons answer rest ih =>
    rw [map_cons, mem_cons, ih, lookup_cons]
    by_cases heq : token = answer.1
    · simp [heq]
    · simp [heq, beq_false_of_ne heq]

/-- No other order under way has answered the token. -/
def distinctTokens (acme : Acme) : AcmeEvent → Bool
  | .answer id token _ => acme.calls.toList.all fun item =>
      item.1 == id || !item.2.pc.underWay || !(item.2.answered.map Prod.fst).contains token
  | _ => true

theorem Served.step (h : acme.Served) (hdistinct : acme.distinctTokens event)
    (hstep : acme.step event = some next) : next.Served := by
  unfold Served at h ⊢
  cases move_of_step hstep with
  | passes => exact h
  | begins hnew =>
    apply h.insert <;> simp [Serves, CallPc.underWay, setCall, challenge, hnew]
  | goesOn hcall hunder =>
    exact h.update hcall fun token auth => by simp only [Serves, hunder]
  | starts hcall hidle =>
    refine h.update hcall fun token auth => ?_
    simp [Serves, hidle]
  | @answers id call token auth hcall hpc =>
    have hunder : call.pc.underWay := by
      rw [hpc]
      rfl
    have hown {auth'} (hfound : acme.challenge token = some auth') :
        Serves call token auth' := by
      obtain ⟨other, found, hother, hserves⟩ := h.mem.mp hfound
      have hmem := mem_tokens_iff.mpr ⟨_, hserves.2⟩
      have htest := List.all_eq_true.mp hdistinct (other, found) (mem_items.mpr hother)
      grind [Serves]
    apply h.insert
    · intro other auth'
      show (acme.challenges.insert token auth)[other]? = some auth' ↔ _
      rw [lookup_insert, Serves, lookup_cons]
      by_cases heq : other = token
      · subst heq
        rw [if_pos rfl, beq_self_eq_true]
        refine ⟨fun hsame => .inl ⟨hunder, hsame⟩, ?_⟩
        rintro (⟨-, hsame⟩ | ⟨hfound, hnot⟩)
        · exact hsame
        · exact absurd (hown hfound) (hnot call auth' hcall)
      · rw [if_neg heq, beq_false_of_ne heq]
        exact h.mem_iff_gives_or hcall other auth'
    · intro other auth' auth'' hserves hfound
      by_cases heq : other = token
      · subst heq
        exact ⟨call, hcall, hown hfound⟩
      · rw [Serves, lookup_cons, beq_false_of_ne heq] at hserves
        exact ⟨call, hcall, h.eq_of_gives hcall hserves hfound⟩
  | @drops event id call hcall hunder =>
    apply h.insert
    · intro token auth
      show ((call.answered.map Prod.fst).foldl ExtTreeMap.erase acme.challenges)[token]? = _ ↔ _
      rw [lookup_foldl_erase, ite_none_left_eq_some]
      constructor
      · rintro ⟨hnot, hfound⟩
        refine .inr ⟨hfound, fun old auth' hold hserves => hnot ?_⟩
        cases hcall.symm.trans hold
        exact mem_tokens_iff.mpr ⟨auth', hserves.2⟩
      · rintro (⟨hunder', -⟩ | ⟨hfound, hnot⟩)
        · cases hunder'
        · refine ⟨fun hmem => ?_, hfound⟩
          obtain ⟨auth', hlookup⟩ := mem_tokens_iff.mp hmem
          exact hnot call auth' hcall ⟨hunder, hlookup⟩
    · simp [Serves, underWay_returned]

/-! ## Back-off -/

/-- The failures of the hostname's orders since the last that succeeded, the last first. -/
def failures (results : List Result) (host : Str) : List Result :=
  (results.filter (·.host = host)).takeWhile (!·.ok)

/-- When to try again after such failures, and how long that is to wait. -/
def backOff : List Result → Option (Nat × Nat)
  | [] => none
  | last :: rest =>
    let wait := 60 * min (5 * 2 ^ rest.length) 360
    some (last.time + wait, wait)

def BackedOff (acme : Acme) : Prop :=
  ∀ host, acme.failed[host]? = backOff (failures acme.results host)

theorem failures_cons (result : Result) (results : List Result) (host : Str) :
    failures (result :: results) host =
      if host = result.host then if result.ok then [] else result :: failures results host
      else failures results host := by
  unfold failures
  by_cases hhost : host = result.host
  · cases hok : result.ok <;> simp [hhost, hok]
  · simp [hhost, Ne.symm hhost]

theorem BackedOff.retryAfter (h : acme.BackedOff) (host : Str) :
    acme.retryAfter host = 60 * min (5 * 2 ^ (failures acme.results host).length) 360 := by
  rw [Acme.retryAfter, h host]
  cases failures acme.results host with
  | nil => rfl
  | cons last rest =>
    simp only [backOff, maxRetryAfter, length_cons, pow_succ]
    omega

/-- The time to try again is doubled by each failure, and forgotten with a success. -/
theorem BackedOff.step (h : acme.BackedOff) (hstep : acme.step event = some next) :
    next.BackedOff := by
  cases move_of_step hstep with
  | @goesOn event id call pc certificates failed results hcall hunder hclear hrecords =>
    intro host
    show failed[host]? = backOff (failures results host)
    cases hrecords with
    | nothing => exact h host
    | succeeded hpc =>
      rw [lookup_erase, failures_cons, h host]
      split <;> rfl
    | stored hpc => exact h host
    | failed hpc =>
      rw [lookup_insert, failures_cons, h.retryAfter, h host]
      split
      · rename_i heq
        rw [heq]
        rfl
      · rfl
  | passes | begins | starts | answers | drops => exact h

/-! ## Freshness -/

/-- While a call is between its checks and its start, no order for its hostname is put on
record, and the system's clock is not set back. -/
def undisturbed (acme : Acme) : AcmeEvent → Bool
  | .passes _ systemTime => acme.systemTime ≤ systemTime ||
      acme.calls.toList.all fun item => !item.2.pc.checking
  | .proceed id => acme.calls[id]?.all fun call => !call.pc.recording ||
      acme.calls.toList.all fun item => !(item.2.pc.checking && item.2.host == call.host)
  | _ => true

def Clear (acme : Acme) : Prop :=
  ∀ (id : Nat) (call : Call), acme.calls[id]? = some call → acme.ClearFor call

/-- Without a record, and with the clocks going on, what was found out holds on. -/
theorem ClearFor.mono (h : acme.ClearFor call)
    (hfresh : call.pc.checking → acme.fresh call.host = false → next.fresh call.host = false)
    (hwaiting : call.pc.checking → acme.waiting call.host = false →
      next.waiting call.host = false) : next.ClearFor call := by
  by_cases hchecking : call.pc.checking
  · exact ⟨fun hpc => hfresh hchecking (h.fresh hpc), fun hpc => hwaiting hchecking (h.waiting hpc)⟩
  · exact .of_not_checking (by simpa using hchecking)

theorem Clear.insert (h : acme.Clear) (hcalls : next.calls = acme.calls.insert id call)
    (hnew : next.ClearFor call)
    (hothers : ∀ (other : Nat) (found : Call), acme.calls[other]? = some found →
      acme.ClearFor found → next.ClearFor found) : next.Clear := by
  intro other found hfound
  rw [hcalls, lookup_insert] at hfound
  split at hfound
  · cases hfound
    exact hnew
  · exact hothers other found hfound (h other found hfound)

theorem Clear.step (h : acme.Clear) (hquiet : acme.undisturbed event)
    (hstep : acme.step event = some next) : next.Clear := by
  cases move_of_step hstep with
  | @passes clock systemTime hclock =>
    intro id call hcall
    apply (h id call hcall).mono
    · intro hchecking hfresh
      have htime : acme.systemTime ≤ systemTime := by
        have hall := hquiet
        simp only [undisturbed, Bool.or_eq_true, decide_eq_true_eq,
          List.all_eq_true] at hall
        rcases hall with htime | hnone
        · exact htime
        · have hnot := hnone (id, call) (mem_items.mpr hcall)
          simp [hchecking] at hnot
      grind [fresh]
    · grind [waiting]
  | begins | starts | drops =>
    exact h.insert rfl (.of_not_checking rfl) fun _ _ _ hfound => ⟨hfound.fresh, hfound.waiting⟩
  | @goesOn event id call pc certificates failed results hcall hunder hclear hrecords hevent =>
    have hapart (hrecording : call.pc.recording) {other : Nat} {found : Call}
        (hfound : acme.calls[other]? = some found) (hchecking : found.pc.checking) :
        found.host ≠ call.host := by
      have hproceed : event = .proceed id := by
        apply hevent
        intro hpc
        rw [hpc] at hrecording
        cases hrecording
      have hall := hquiet
      simp only [undisturbed, hproceed, hcall, hrecording, all_some,
        Bool.not_true, Bool.false_or, List.all_eq_true] at hall
      have hnot := hall (other, found) (mem_items.mpr hfound)
      simpa [hchecking] using hnot
    have hidle {next : Acme} (hunder' : call.pc.underWay) :
        next.ClearFor { call with pc } := by
      apply ClearFor.of_not_checking
      rw [hunder'] at hunder
      cases pc <;> first | rfl | cases hunder
    cases hrecords with
    | nothing =>
      have hself := hclear (h id call hcall)
      exact h.insert rfl ⟨hself.fresh, hself.waiting⟩
        fun _ _ _ hfound => ⟨hfound.fresh, hfound.waiting⟩
    | succeeded hpc =>
      refine h.insert rfl (hidle (by rw [hpc]; rfl)) fun other found _ hfound => hfound.mono ?_ ?_
      · exact fun _ hfresh => hfresh
      · intro _ hwaiting
        rw [waiting, lookup_erase]
        split
        · rfl
        · exact hwaiting
    | stored hpc =>
      refine h.insert rfl (hidle (by rw [hpc]; rfl)) fun other found hother hfound =>
        hfound.mono (fun hchecking hfresh => ?_) fun _ hwaiting => hwaiting
      rw [fresh, lookup_insert_of_ne _ (hapart (by rw [hpc]; rfl) hother hchecking)]
      exact hfresh
    | failed hpc =>
      refine h.insert rfl (hidle (by rw [hpc]; rfl)) fun other found hother hfound =>
        hfound.mono (fun _ hfresh => hfresh) fun hchecking hwaiting => ?_
      rw [waiting, lookup_insert_of_ne _ (hapart (by rw [hpc]; rfl) hother hchecking)]
      exact hwaiting
  | answers hcall hpc =>
    exact h.insert rfl (.of_not_checking (by rw [hpc]; rfl))
      fun _ _ _ hfound => ⟨hfound.fresh, hfound.waiting⟩

/-- The next step starts an order for the hostname. -/
def Starts (acme : Acme) (event : AcmeEvent) (host : Str) : Prop :=
  ∃ id call, event = .proceed id ∧ acme.calls[id]? = some call ∧ call.pc = .start ∧
    call.host = host ∧ host ∉ acme.ordering

end Acme

open Acme in
/-- Challenges are answered exactly while their order lives: if the CA's tokens are distinct
across orders, a token has the last answer of an order under way and no other, and the
hostnames with an order are those of the orders under way. -/
theorem challenges_answered_while_ordering {certificates : ExtTreeMap Str Nat compare}
    {clock systemTime : Nat} {schedule : List AcmeEvent} {acme : Acme}
    (hdistinct : Along step (fun acme event => acme.distinctTokens event = true)
      (load certificates clock systemTime) schedule)
    (hrun : run step (load certificates clock systemTime) schedule = some acme) :
    (∀ token auth, acme.challenge token = some auth ↔
      ∃ (id : Nat) (call : Call), acme.calls[id]? = some call ∧ Serves call token auth) ∧
    ∀ host, host ∈ acme.ordering ↔
      ∃ (id : Nat) (call : Call), acme.calls[id]? = some call ∧ OrdersFor call host () := by
  have hserved : acme.Served :=
    run_preserves (fun hdistinct h hstep => h.step hdistinct hstep)
      (by constructor <;> simp [load, challenge]) hdistinct hrun
  have hexclusive : acme.Exclusive :=
    run_preserves_all (fun h hstep => h.step hstep) (by constructor <;> simp [load]) hrun
  exact ⟨fun token auth => hserved.mem, fun host => hexclusive.mem⟩

/-- Two calls order certificates and answer a challenge each, and the first is cancelled. -/
def answering : List AcmeEvent :=
  [.ensure 0 "a", .ensure 1 "b", .proceed 0, .proceed 0, .proceed 0, .proceed 1, .proceed 1,
    .proceed 1, .answer 0 "t" "k", .answer 1 "u" "m", .aborted 0]

/-- The theorem applies: only the challenge of the order under way is answered. -/
theorem answered_challenge_has_order :
    ∃ acme, run Acme.step (.load ∅ 0 0) answering = some acme ∧ acme.challenge "t" = none ∧
      ∃ (id : Nat) (call : Call), acme.calls[id]? = some call ∧ Acme.Serves call "u" "m" := by
  obtain ⟨acme, hrun, hgone, hchallenge⟩ : ∃ acme,
      run Acme.step (.load ∅ 0 0) answering = some acme ∧ acme.challenge "t" = none ∧
        acme.challenge "u" = some "m" := ⟨_, rfl, by decide +kernel⟩
  have hexact := challenges_answered_while_ordering (by decide +kernel) hrun
  exact ⟨acme, hrun, hgone, (hexact.1 _ _).mp hchallenge⟩

open Acme in
/-- ACME orders respect exclusion and back-off, and, as long as no order for a hostname is put
on record between the checks of a call for it and its start, freshness and the time to try
again. -/
theorem orders_respect_limits {certificates : ExtTreeMap Str Nat compare}
    {clock systemTime : Nat} {schedule : List AcmeEvent} {acme : Acme}
    (hrun : run step (load certificates clock systemTime) schedule = some acme) :
    (∀ event host, acme.Starts event host →
      (∀ (id : Nat) (call : Call), acme.calls[id]? = some call → ¬OrdersFor call host ()) ∧
        (Along step (fun acme event => acme.undisturbed event = true)
            (load certificates clock systemTime) schedule →
          acme.fresh host = false ∧ acme.waiting host = false)) ∧
    ∀ host last earlier, failures acme.results host = last :: earlier →
      acme.failed[host]?.map Prod.fst =
        some (last.time + 60 * min (5 * 2 ^ earlier.length) 360) := by
  have hexclusive : acme.Exclusive :=
    run_preserves_all (fun h hstep => h.step hstep) (by constructor <;> simp [load]) hrun
  have hbacked : acme.BackedOff :=
    run_preserves_all (fun h hstep => h.step hstep)
      (fun host => by simp [load, failures, backOff]) hrun
  constructor
  · rintro event host ⟨id, call, -, hcall, hpc, rfl, hfree⟩
    refine ⟨fun other found hother horders => ?_, fun hquiet => ?_⟩
    · exact hfree (hexclusive.mem.mpr ⟨other, found, hother, horders⟩)
    · have hclear : acme.Clear :=
        run_preserves (fun hquiet h hstep => h.step hquiet hstep)
          (fun id call => by simp [load]) hquiet hrun
      have hfound := hclear id call hcall
      exact ⟨hfound.fresh (.inr hpc), hfound.waiting hpc⟩
  · intro host last earlier hfailures
    rw [hbacked host, hfailures]
    rfl

/-- An order fails, and a second call waits until it may try again. -/
def retrying : List AcmeEvent :=
  [.ensure 0 "a", .proceed 0, .proceed 0, .proceed 0, .ordered 0 none, .proceed 0,
    .proceed 0, .passes 300 300, .ensure 1 "a", .proceed 1, .proceed 1]

/-- The theorem applies: the second call starts its order, five minutes later. -/
theorem second_order_respects_limits :
    ∃ acme, run Acme.step (.load ∅ 0 0) retrying = some acme ∧
      acme.Starts (.proceed 1) "a" ∧ acme.waiting "a" = false := by
  obtain ⟨acme, hrun, hstarts⟩ : ∃ acme,
      run Acme.step (.load ∅ 0 0) retrying = some acme ∧ acme.Starts (.proceed 1) "a" :=
    ⟨_, rfl, 1, ⟨_, .start, []⟩, rfl, by decide +kernel, rfl, rfl, by decide⟩
  have hlimits := (orders_respect_limits hrun).1 _ _ hstarts
  exact ⟨acme, hrun, hstarts, (hlimits.2 (by decide +kernel)).2⟩

/-- A call has made its checks when another call's order ends with a certificate. -/
def overtaken : List AcmeEvent :=
  [.ensure 0 "a", .ensure 1 "a", .proceed 0, .proceed 0, .proceed 1, .proceed 1,
    .proceed 1, .ordered 1 (some (90 * 24 * 60 * 60)), .proceed 1, .proceed 1, .proceed 1]

/-- The call then starts an order, although the stored certificate has 90 days left. -/
theorem overtaken_call_orders_again :
    ∃ acme, run Acme.step (.load ∅ 0 0) overtaken = some acme ∧
      acme.Starts (.proceed 0) "a" ∧ acme.fresh "a" = true :=
  ⟨_, rfl, ⟨0, ⟨_, .start, []⟩, rfl, by decide +kernel, rfl, rfl, by decide⟩, by decide +kernel⟩

end Cirrocumulus.HttpEdge
