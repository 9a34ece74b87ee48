/-
# The config handshake

The agent hands guest-init its config over the VM's vsock socket. An attempt connects, sends
`CONNECT <port>`, waits for a line that begins with `OK`, writes the config and shuts the
connection down. Whatever goes wrong ends the attempt, its connection is dropped, and the
next attempt begins from scratch. guest-init listens once, accepts one connection, reads it
to its end and parses what it read; as PID 1 it can't afford anything else.

Between the two is Firecracker. It refuses a connection while nobody listens in the guest,
and queues it for the guest otherwise. Every message may take any time: `CONNECT` is on the
way until Firecracker relays it, `OK` until the agent reads it, and the bytes on the wire
until guest-init reads them.
-/

import Mathlib.Data.List.Infix
import Cirrocumulus.Lib.Runs

namespace Cirrocumulus.Guest

open Lib List Option

variable {configJson : List UInt8}

/-- What became of `CONNECT`. -/
inductive Relay
  | requested
  /-- The guest has the connection in its queue, or took it from there. -/
  | queued
  | refused
  deriving DecidableEq

/-- The agent's end of a connection. -/
inductive HostEnd
  | held
  /-- The attempt was given up. -/
  | dropped
  /-- The attempt shut it down behind the config. -/
  | shut
  deriving DecidableEq

structure Conn where
  relay : Relay
  host : HostEnd
  /-- What the agent wrote and guest-init has yet to read. -/
  wire : List UInt8
  deriving DecidableEq

/-- Where `deliver_config` stands. -/
inductive Delivery
  | idle
  /-- `CONNECT` is sent. -/
  | waiting (conn : Nat)
  /-- `OK` has come. -/
  | writing (conn : Nat) (rest : List UInt8)
  | delivered
  | failed
  deriving DecidableEq

/-- Where `read_config_from_vsock` stands. -/
inductive Reader
  | booting
  | accepting
  | reading (conn : Nat) (configJson : List UInt8)
  /-- The connection has ended, and `config_json` goes to `parse_config`. -/
  | parsing (conn : Nat) (configJson : List UInt8)
  deriving DecidableEq

/-- The connection that the agent's attempt holds. -/
def Delivery.conn? : Delivery → Option Nat
  | .waiting k | .writing k _ => some k
  | .idle | .delivered | .failed => none

/-- The connection that guest-init accepted. -/
def Reader.conn? : Reader → Option Nat
  | .reading k _ | .parsing k _ => some k
  | .booting | .accepting => none

/-- What guest-init has read from a connection. -/
def Reader.received (k : Nat) : Reader → List UInt8
  | .reading j configJson | .parsing j configJson => if j = k then configJson else []
  | .booting | .accepting => []

structure Handshake where
  /-- The agent's connections, in the order it made them. -/
  conns : List Conn
  /-- The guest's queue of connections to accept. -/
  queue : List Nat
  agent : Delivery
  guest : Reader
  deriving DecidableEq

inductive HandshakeEvent
  /-- An attempt connects and sends `CONNECT`. -/
  | connect
  /-- Firecracker relays `CONNECT`. -/
  | relay (conn : Nat)
  /-- The agent reads `OK`. -/
  | ack
  /-- The agent sees that Firecracker closed the connection. -/
  | refusal
  /-- A second has passed without `OK`, or a write fails. -/
  | giveUp
  /-- The agent writes so many bytes of the config. -/
  | write (n : Nat)
  | shutdown
  /-- `CONFIG_TIMEOUT` is over, or the VM has ended. -/
  | expire
  | listen
  | accept
  /-- guest-init reads so many bytes. -/
  | read (n : Nat)
  /-- guest-init reads the end of its connection. -/
  | eof

variable {f : Conn → Conn} {s' : Handshake} {event : HandshakeEvent}

namespace Handshake

def start : Handshake := ⟨[], [], .idle, .booting⟩

variable (s : Handshake)

def update (k : Nat) (f : Conn → Conn) : Handshake := { s with conns := s.conns.modify k f }

/-- An attempt connects and sends `CONNECT`. -/
def connected : Handshake :=
  { s with conns := s.conns ++ [⟨.requested, .held, []⟩], agent := .waiting s.conns.length }

/-- The attempt at `k` is over: its connection is dropped. -/
def drop (k : Nat) : Handshake :=
  { s.update k fun conn => { conn with host := .dropped } with agent := .idle }

/-- Firecracker relays `CONNECT`. The answer, if the guest listens, is `OK`. -/
def relayed (k : Nat) : Handshake :=
  if s.guest = .booting then s.update k fun conn => { conn with relay := .refused }
  else
    { s.update k fun conn => { conn with relay := .queued } with queue := s.queue ++ [k] }

def step (config : List UInt8) (s : Handshake) : HandshakeEvent → Option Handshake
  | .connect => if s.agent = .idle then some s.connected else none
  | .relay k => do
      let conn ← s.conns[k]?
      if conn.relay = .requested then some (s.relayed k) else none
  | .ack =>
    match s.agent with
    | .waiting k => do
        let conn ← s.conns[k]?
        if conn.relay = .queued then some { s with agent := .writing k config } else none
    | _ => none
  | .refusal =>
    match s.agent with
    | .waiting k => do
        let conn ← s.conns[k]?
        if conn.relay = .refused then some (s.drop k) else none
    | _ => none
  | .giveUp => s.agent.conn?.map s.drop
  | .write n =>
    match s.agent with
    | .writing k rest =>
      some { s.update k fun conn => { conn with wire := conn.wire ++ rest.take n } with
        agent := .writing k (rest.drop n) }
    | _ => none
  | .shutdown =>
    match s.agent with
    | .writing k [] =>
      some { s.update k fun conn => { conn with host := .shut } with agent := .delivered }
    | _ => none
  | .expire => if s.agent = .idle then some { s with agent := .failed } else none
  | .listen => if s.guest = .booting then some { s with guest := .accepting } else none
  | .accept =>
    match s.guest, s.queue with
    | .accepting, k :: queue => some { s with queue, guest := .reading k [] }
    | _, _ => none
  | .read n =>
    match s.guest with
    | .reading k configJson => do
        let conn ← s.conns[k]?
        some { s.update k fun conn => { conn with wire := conn.wire.drop n } with
          guest := .reading k (configJson ++ conn.wire.take n) }
    | _ => none
  | .eof =>
    match s.guest with
    | .reading k configJson => do
        let conn ← s.conns[k]?
        -- The end comes behind the bytes: it is read once the wire is empty.
        if conn.wire = [] ∧ conn.host ≠ .held then some { s with guest := .parsing k configJson }
        else none
    | _ => none

/-! ## What a step can do -/

/-- The steps, each with what it takes. -/
inductive Move (config : List UInt8) (s : Handshake) : HandshakeEvent → Handshake → Prop
  | connect (hidle : s.agent = .idle) : Move config s .connect s.connected
  | relay {k conn} (hconn : s.conns[k]? = some conn)
      (hrequested : conn.relay = .requested) : Move config s (.relay k) (s.relayed k)
  | ack {k} (hagent : s.agent = .waiting k) :
      Move config s .ack { s with agent := .writing k config }
  | refusal {k conn} (hagent : s.agent.conn? = some k) (hconn : s.conns[k]? = some conn)
      (hrefused : conn.relay = .refused) : Move config s .refusal (s.drop k)
  | giveUp {k} (hagent : s.agent.conn? = some k) : Move config s .giveUp (s.drop k)
  | write {k n rest} (hagent : s.agent = .writing k rest) :
      Move config s (.write n)
        { s.update k fun conn => { conn with wire := conn.wire ++ rest.take n } with
          agent := .writing k (rest.drop n) }
  | shutdown {k} (hagent : s.agent = .writing k []) :
      Move config s .shutdown
        { s.update k fun conn => { conn with host := .shut } with agent := .delivered }
  | expire (hidle : s.agent = .idle) : Move config s .expire { s with agent := .failed }
  | listen (hguest : s.guest = .booting) : Move config s .listen { s with guest := .accepting }
  | accept {k queue} (hguest : s.guest = .accepting) (hqueue : s.queue = k :: queue) :
      Move config s .accept { s with queue, guest := .reading k [] }
  | read {k n configJson conn}
      (hguest : s.guest = .reading k configJson) (hconn : s.conns[k]? = some conn) :
      Move config s (.read n) { s.update k fun conn => { conn with wire := conn.wire.drop n } with
          guest := .reading k (configJson ++ conn.wire.take n) }
  | eof {k configJson conn} (hguest : s.guest = .reading k configJson)
      (hconn : s.conns[k]? = some conn) (hend : conn.wire = [] ∧ conn.host ≠ .held) :
      Move config s .eof { s with guest := .parsing k configJson }

theorem move_of_step {s config}
    (hstep : s.step config event = some s') : Move config s event s' := by
  cases event with
  | connect =>
    obtain ⟨hidle, rfl⟩ := ite_some_none_eq_some.mp hstep
    exact .connect hidle
  | relay k =>
    obtain ⟨conn, hconn, hstep⟩ := bind_eq_some_iff.mp hstep
    obtain ⟨hrequested, rfl⟩ := ite_some_none_eq_some.mp hstep
    exact .relay hconn hrequested
  | ack =>
    simp only [step] at hstep
    split at hstep
    case h_2 => cases hstep
    case h_1 k hagent =>
      obtain ⟨conn, hconn, hstep⟩ := bind_eq_some_iff.mp hstep
      obtain ⟨-, rfl⟩ := ite_some_none_eq_some.mp hstep
      exact .ack hagent
  | refusal =>
    simp only [step] at hstep
    split at hstep
    case h_2 => cases hstep
    case h_1 k hagent =>
      obtain ⟨conn, hconn, hstep⟩ := bind_eq_some_iff.mp hstep
      obtain ⟨hrefused, rfl⟩ := ite_some_none_eq_some.mp hstep
      exact .refusal (by rw [hagent]; rfl) hconn hrefused
  | giveUp =>
    obtain ⟨k, hagent, rfl⟩ := map_eq_some_iff.mp hstep
    exact .giveUp hagent
  | write n =>
    simp only [step] at hstep
    split at hstep <;> cases hstep
    exact .write ‹_›
  | shutdown =>
    simp only [step] at hstep
    split at hstep <;> cases hstep
    exact .shutdown ‹_›
  | expire =>
    obtain ⟨hidle, rfl⟩ := ite_some_none_eq_some.mp hstep
    exact .expire hidle
  | listen =>
    obtain ⟨hbooting, rfl⟩ := ite_some_none_eq_some.mp hstep
    exact .listen hbooting
  | accept =>
    simp only [step] at hstep
    split at hstep <;> cases hstep
    exact .accept ‹_› ‹_›
  | read n =>
    simp only [step] at hstep
    split at hstep
    case h_2 => cases hstep
    case h_1 k configJson hguest =>
      obtain ⟨conn, hconn, hs⟩ := bind_eq_some_iff.mp hstep
      cases hs
      exact .read hguest hconn
  | eof =>
    simp only [step] at hstep
    split at hstep
    case h_2 => cases hstep
    case h_1 k configJson hguest =>
      obtain ⟨conn, hconn, hstep⟩ := bind_eq_some_iff.mp hstep
      obtain ⟨hend, rfl⟩ := ite_some_none_eq_some.mp hstep
      exact .eof hguest hconn hend

/-! ## What a connection has carried -/

/-- The bytes of a connection, read or still on the wire, against the config: all of them
once it is shut down, and otherwise as many as its attempt has written. -/
def Carried (config : List UInt8) (k : Nat) (conn : Conn) : Prop :=
  match conn.host with
  | .held =>
    s.agent = .waiting k ∧ s.guest.received k ++ conn.wire = [] ∨
      ∃ rest, s.agent = .writing k rest ∧ s.guest.received k ++ conn.wire ++ rest = config
  | .dropped => s.guest.received k ++ conn.wire <+: config
  | .shut => s.guest.received k ++ conn.wire = config

structure Sound (config : List UInt8) : Prop where
  carried : ∀ {k conn}, s.conns[k]? = some conn → s.Carried config k conn
  held : ∀ {k}, s.agent.conn? = some k → ∃ conn, s.conns[k]? = some conn ∧ conn.host = .held
  queued : ∀ {k}, k ∈ s.queue → ∃ conn, s.conns[k]? = some conn ∧ conn.relay = .queued
  accepted : ∀ {k}, s.guest.conn? = some k → ∃ conn, s.conns[k]? = some conn ∧ conn.relay = .queued
  /-- guest-init parses behind the end of its connection. -/
  ended : ∀ {k configJson}, s.guest = .parsing k configJson →
    ∃ conn, s.conns[k]? = some conn ∧ conn.wire = [] ∧ conn.host ≠ .held

variable {s} {config : List UInt8} {k j : Nat} {conn : Conn}

theorem lookup_update :
    (s.update k f).conns[j]? = if k = j then s.conns[j]?.map f else s.conns[j]? := by
  by_cases heq : k = j <;> simp [update, heq]

@[simp]
theorem update_agent : (s.update k f).agent = s.agent := rfl

@[simp]
theorem update_guest : (s.update k f).guest = s.guest := rfl

theorem forall_update {P : Nat → Conn → Prop} (h : (s.update k f).conns[j]? = some conn)
    (hat : ∀ {conn}, s.conns[k]? = some conn → P k (f conn))
    (hother : ∀ {j conn}, j ≠ k → s.conns[j]? = some conn → P j conn) : P j conn := by
  rw [lookup_update] at h
  split at h
  case isTrue heq =>
    subst heq
    obtain ⟨old, hold, rfl⟩ := map_eq_some_iff.mp h
    exact hat hold
  case isFalse hne => exact hother (Ne.symm hne) h

theorem exists_update {P : Conn → Prop} (hf : ∀ conn, P conn → P (f conn))
    (h : ∃ conn, s.conns[j]? = some conn ∧ P conn) :
    ∃ conn, (s.update k f).conns[j]? = some conn ∧ P conn := by
  obtain ⟨conn, hconn, hP⟩ := h
  rw [lookup_update, hconn]
  split
  · exact ⟨f conn, rfl, hf conn hP⟩
  · exact ⟨conn, rfl, hP⟩

theorem carried_update (h : s'.conns[j]? = some conn) (hconns : s'.conns = (s.update k f).conns)
    (hat : ∀ {conn}, s.conns[k]? = some conn → s'.Carried config k (f conn))
    (hother : ∀ {j conn}, j ≠ k → s.conns[j]? = some conn → s'.Carried config j conn) :
    s'.Carried config j conn :=
  forall_update (P := s'.Carried config) (hconns ▸ h) hat hother

theorem Carried.agent (h : s.Carried config k conn) (hheld : conn.host = .held) :
    s.agent.conn? = some k := by
  simp only [Carried, hheld] at h
  rcases h with ⟨hagent, -⟩ | ⟨rest, hagent, -⟩ <;> rw [hagent] <;> rfl

/-- A step of somebody else leaves what a connection has carried. -/
theorem Carried.congr (h : s.Carried config k conn)
    (hagent : conn.host = .held → s'.agent = s.agent)
    (hreceived : s'.guest.received k = s.guest.received k) : s'.Carried config k conn := by
  unfold Carried at h ⊢
  rw [hreceived]
  split at h
  case h_1 heq => rwa [hagent heq]
  case h_2 => exact h
  case h_3 => exact h

/-- What a connection has carried is the beginning of the config. -/
theorem Carried.isPrefix (h : s.Carried config k conn) :
    s.guest.received k ++ conn.wire <+: config := by
  unfold Carried at h
  split at h
  · rcases h with ⟨-, hnothing⟩ | ⟨rest, -, hall⟩
    · rw [hnothing]
      exact nil_prefix
    · exact ⟨rest, hall⟩
  · exact h
  · rw [h]

theorem received_eq_nil (h : s.guest.conn? ≠ some k) : s.guest.received k = [] := by
  cases hguest : s.guest with
  | booting => rfl
  | accepting => rfl
  | reading | parsing =>
    rw [hguest] at h
    exact if_neg fun heq => h (congrArg some heq)

namespace Sound

theorem start : Sound start config where
  carried h := by cases h
  held h := by cases h
  queued h := by cases h
  accepted h := by cases h
  ended h := by cases h

variable (h : s.Sound config)
include h

theorem connect (hidle : s.agent = .idle) : s.connected.Sound config := by
  have hkept {k : Nat} {P : Conn → Prop} (hP : ∃ conn, s.conns[k]? = some conn ∧ P conn) :
      ∃ conn, (s.conns ++ [⟨.requested, .held, []⟩])[k]? = some conn ∧ P conn := by
    obtain ⟨conn, hconn, hP⟩ := hP
    have hlt : k < s.conns.length := (List.getElem?_eq_some_iff.mp hconn).1
    exact ⟨conn, by rw [getElem?_append_left hlt, hconn], hP⟩
  have hnew : s.guest.conn? ≠ some s.conns.length := by
    intro heq
    obtain ⟨conn, hconn, -⟩ := h.accepted heq
    exact absurd (List.getElem?_eq_some_iff.mp hconn).1 (Nat.lt_irrefl _)
  refine ⟨?_, ?_, fun hmem => hkept (h.queued hmem), fun hguest => hkept (h.accepted hguest),
    fun hguest => hkept (h.ended hguest)⟩
  · intro k conn hconn
    change (s.conns ++ [_])[k]? = some conn at hconn
    rcases Nat.lt_or_ge k s.conns.length with hlt | hge
    · rw [getElem?_append_left hlt] at hconn
      refine (h.carried hconn).congr (fun hheld => ?_) rfl
      -- No attempt is under way, so no older connection is held.
      have hagent := (h.carried hconn).agent hheld
      rw [hidle] at hagent
      cases hagent
    · obtain rfl : k = s.conns.length := by
        have := (List.getElem?_eq_some_iff.mp hconn).1
        simp only [length_append, length_singleton] at this
        omega
      rw [getElem?_concat_length] at hconn
      cases hconn
      exact .inl ⟨rfl, (append_nil _).trans (received_eq_nil hnew)⟩
  · intro k hagent
    cases hagent
    exact ⟨_, getElem?_concat_length, rfl⟩

/-- Firecracker changes what became of `CONNECT`, and perhaps the queue. -/
theorem relay {queue : List Nat} {relay}
    (hrequested : ∀ {conn}, s.conns[k]? = some conn → conn.relay = .requested)
    (hqueue : ∀ {j}, j ∈ queue → j ∈ s.queue ∨
      j = k ∧ relay = .queued ∧ ∃ conn, s.conns[k]? = some conn) :
    Sound { s.update k fun conn => { conn with relay } with queue } config := by
  have hqueued {j : Nat} (hj : ∃ conn, s.conns[j]? = some conn ∧ conn.relay = .queued) :
      ∃ conn, (s.update k fun conn => { conn with relay }).conns[j]? = some conn ∧
        conn.relay = .queued := by
    obtain ⟨conn, hconn, hrelay⟩ := hj
    refine ⟨conn, ?_, hrelay⟩
    rw [lookup_update, if_neg, hconn]
    rintro rfl
    cases hrelay.symm.trans (hrequested hconn)
  refine ⟨?_, ?_, ?_, ?_, ?_⟩
  · refine fun hconn => carried_update hconn rfl (fun hconn => ?_) fun _ hconn => h.carried hconn
    have hcarried := h.carried hconn
    exact hcarried
  · exact fun hagent => exists_update (fun _ => id) (h.held hagent)
  · intro j hmem
    rcases hqueue hmem with hold | ⟨rfl, rfl, conn, hconn⟩
    · exact hqueued (h.queued hold)
    · exact ⟨{ conn with relay := .queued }, by simp [lookup_update, hconn], rfl⟩
  · exact fun hguest => hqueued (h.accepted hguest)
  · exact fun hguest => exists_update (fun _ => id) (h.ended hguest)

theorem relayed (hconn : s.conns[k]? = some conn) (hrequested : conn.relay = .requested) :
    (s.relayed k).Sound config := by
  have hrelay {conn'} (hconn' : s.conns[k]? = some conn') : conn'.relay = .requested := by
    cases hconn.symm.trans hconn'
    exact hrequested
  unfold Handshake.relayed
  split
  · exact h.relay hrelay .inl
  · apply h.relay hrelay
    intro j hmem
    rcases mem_append.mp hmem with hold | hnew
    · exact .inl hold
    · exact .inr ⟨mem_singleton.mp hnew, rfl, conn, hconn⟩

theorem ack (hagent : s.agent = .waiting k) :
    Sound { s with agent := .writing k config } config := by
  refine ⟨?_, ?_, h.queued, h.accepted, h.ended⟩
  · intro j conn hconn
    by_cases hheld : conn.host = .held
    · have hj := (h.carried hconn).agent hheld
      rw [hagent] at hj
      cases hj
      have hcarried := h.carried hconn
      simp only [Carried, hheld, hagent] at hcarried ⊢
      rcases hcarried with ⟨-, hnothing⟩ | ⟨rest, habsurd, -⟩
      · exact .inr ⟨config, rfl, by rw [hnothing]; rfl⟩
      · cases habsurd
    · exact (h.carried hconn).congr (fun heq => absurd heq hheld) rfl
  · intro j hj
    apply h.held
    rw [hagent]
    exact hj

/-- An attempt that ends lets go of the one connection that is held. -/
theorem carried_of_release (hagent : s.agent.conn? = some k) (hne : j ≠ k)
    (hguest : s'.guest = s.guest) (hconn : s.conns[j]? = some conn) : s'.Carried config j conn := by
  refine (h.carried hconn).congr (fun hheld => ?_) (by rw [hguest])
  have hj := (h.carried hconn).agent hheld
  rw [hagent] at hj
  cases hj
  exact absurd rfl hne

/-- The agent goes on with the connection it holds, or lets go of it. -/
theorem own {agent : Delivery} (hk : s.agent.conn? = some k)
    (hrelay : ∀ conn, (f conn).relay = conn.relay)
    (hheld : ∀ {j}, agent.conn? = some j → j = k ∧ ∀ conn, (f conn).host = conn.host)
    (hcarried : ∀ {conn}, s.conns[k]? = some conn → conn.host = .held →
      Carried { s with agent } config k (f conn)) : Sound { s.update k f with agent } config := by
  obtain ⟨own, hown, hhost⟩ := h.held hk
  refine ⟨?_, ?_, ?_, ?_, ?_⟩
  · refine fun hconn => carried_update hconn rfl (fun hconn => ?_)
      fun hne hconn => h.carried_of_release hk hne rfl hconn
    cases hown.symm.trans hconn
    exact hcarried hown hhost
  · intro j hj
    obtain ⟨rfl, hsame⟩ := hheld hj
    exact exists_update (fun conn => (hsame conn).trans) (h.held hk)
  · exact fun hmem => exists_update (fun conn => (hrelay conn).trans) (h.queued hmem)
  · exact fun hguest => exists_update (fun conn => (hrelay conn).trans) (h.accepted hguest)
  · intro j configJson hguest
    obtain ⟨conn, hconn, hwire, hend⟩ := h.ended hguest
    refine ⟨conn, ?_, hwire, hend⟩
    -- The agent's connection is held, so it is not the one that ended.
    rw [lookup_update, if_neg, hconn]
    rintro rfl
    cases hown.symm.trans hconn
    exact hend hhost

theorem drop (hagent : s.agent.conn? = some k) : (s.drop k).Sound config :=
  h.own hagent (fun _ => rfl) (fun hj => by cases hj) fun hconn _ => (h.carried hconn).isPrefix

/-- What is written and what is left to write make up the config. -/
theorem written {rest} (hagent : s.agent = .writing k rest) (hconn : s.conns[k]? = some conn)
    (hhost : conn.host = .held) : s.guest.received k ++ conn.wire ++ rest = config := by
  have hcarried := h.carried hconn
  simp only [Carried, hhost, hagent] at hcarried
  rcases hcarried with ⟨habsurd, -⟩ | ⟨rest', heq, hall⟩
  · cases habsurd
  · cases heq
    exact hall

theorem write (n : Nat) {rest} (hagent : s.agent = .writing k rest) :
    Sound { s.update k fun conn => { conn with wire := conn.wire ++ rest.take n } with
      agent := .writing k (rest.drop n) } config := by
  have hk : s.agent.conn? = some k := by rw [hagent]; rfl
  refine h.own hk (fun _ => rfl) (fun hj => ⟨(Option.some.inj hj).symm, fun _ => rfl⟩) ?_
  intro conn hconn hhost
  have hall := h.written hagent hconn hhost
  simp only [Carried, hhost]
  exact .inr ⟨rest.drop n, rfl, by simpa [append_assoc] using hall⟩

theorem shutdown (hagent : s.agent = .writing k []) :
    Sound { s.update k fun conn => { conn with host := .shut } with agent := .delivered }
      config := by
  have hk : s.agent.conn? = some k := by rw [hagent]; rfl
  refine h.own hk (fun _ => rfl) (fun hj => by cases hj) ?_
  intro conn hconn hhost
  have hall := h.written hagent hconn hhost
  rwa [append_nil] at hall

theorem expire (hagent : s.agent = .idle) : Sound { s with agent := .failed } config := by
  refine ⟨?_, (fun hj => by cases hj), h.queued, h.accepted, h.ended⟩
  intro j conn hconn
  refine (h.carried hconn).congr (fun hheld => ?_) rfl
  have hj := (h.carried hconn).agent hheld
  rw [hagent] at hj
  cases hj

theorem listen (hguest : s.guest = .booting) : Sound { s with guest := .accepting } config := by
  refine ⟨?_, h.held, h.queued, (fun hj => by cases hj), fun hj => by cases hj⟩
  intro j conn hconn
  exact (h.carried hconn).congr (fun _ => rfl) (by rw [hguest]; rfl)

theorem accept {queue} (hguest : s.guest = .accepting) (hqueue : s.queue = k :: queue) :
    Sound { s with queue, guest := .reading k [] } config := by
  refine ⟨?_, h.held, ?_, ?_, fun hj => by cases hj⟩
  · intro j conn hconn
    refine (h.carried hconn).congr (fun _ => rfl) ?_
    rw [hguest]
    exact ite_self []
  · intro j hmem
    apply h.queued
    rw [hqueue]
    exact mem_cons_of_mem k hmem
  · intro j hj
    cases hj
    apply h.queued
    rw [hqueue]
    exact mem_cons_self

/-- Bytes that guest-init reads go from the wire to what it has received. -/
theorem read (n : Nat) (hguest : s.guest = .reading k configJson)
    (hconn : s.conns[k]? = some conn) :
    Sound { s.update k fun conn => { conn with wire := conn.wire.drop n } with
      guest := .reading k (configJson ++ conn.wire.take n) } config := by
  have hk : s.guest.conn? = some k := by rw [hguest]; rfl
  refine ⟨?_, ?_, ?_, ?_, fun hj => by cases hj⟩
  · refine fun hconn' => carried_update hconn' rfl (fun hconn' => ?_) fun hne hconn' => ?_
    · cases hconn.symm.trans hconn'
      have hcarried := h.carried hconn
      have hsame :
          configJson ++ conn.wire.take n ++ conn.wire.drop n = configJson ++ conn.wire := by
        rw [append_assoc, take_append_drop]
      simpa only [Carried, hguest, Reader.received, if_true, hsame, update_agent] using hcarried
    · refine (h.carried hconn').congr (fun _ => rfl) ?_
      rw [hguest]
      exact (if_neg (Ne.symm hne)).trans (if_neg (Ne.symm hne)).symm
  · exact fun hj => exists_update (fun _ => id) (h.held hj)
  · exact fun hmem => exists_update (fun _ => id) (h.queued hmem)
  · intro j hj
    cases hj
    exact exists_update (fun _ => id) (h.accepted hk)

theorem eof (hguest : s.guest = .reading k configJson)
    (hconn : s.conns[k]? = some conn) (hend : conn.wire = [] ∧ conn.host ≠ .held) :
    Sound { s with guest := .parsing k configJson } config := by
  refine ⟨?_, h.held, h.queued, ?_, ?_⟩
  · intro j conn' hconn'
    exact (h.carried hconn').congr (fun _ => rfl) (by rw [hguest]; rfl)
  · intro j hj
    apply h.accepted
    rw [hguest]
    exact hj
  · intro j configJson' hj
    cases hj
    exact ⟨conn, hconn, hend⟩

theorem step (hstep : s.step config event = some s') : s'.Sound config := by
  cases move_of_step hstep with
  | connect hidle => exact h.connect hidle
  | relay hconn hrequested => exact h.relayed hconn hrequested
  | ack hagent => exact h.ack hagent
  | refusal hagent => exact h.drop hagent
  | giveUp hagent => exact h.drop hagent
  | write hagent => exact h.write _ hagent
  | shutdown hagent => exact h.shutdown hagent
  | expire hidle => exact h.expire hidle
  | listen hguest => exact h.listen hguest
  | accept hguest hqueue => exact h.accept hguest hqueue
  | read hguest hconn => exact h.read _ hguest hconn
  | eof hguest hconn hend => exact h.eof hguest hconn hend

omit h in
theorem of_run {schedule}
    (hrun : run (Handshake.step config) .start schedule = some s) : s.Sound config :=
  run_preserves_all (fun h hstep => step h hstep) start hrun

end Sound

/-! ## Attempts given up -/

/-- An attempt is given up only when Firecracker has refused its connection: `OK` takes less
than a second, and the writes behind it succeed. -/
def givesUpRefused (s : Handshake) : HandshakeEvent → Bool
  | .giveUp =>
    s.agent.conn?.all fun k => s.conns[k]?.all fun conn => decide (conn.relay = .refused)
  | _ => true

/-- The guest knows of no connection that was given up. -/
def DropsRefused (s : Handshake) : Prop :=
  ∀ ⦃k : Nat⦄ ⦃conn : Conn⦄, s.conns[k]? = some conn → conn.host = .dropped → conn.relay = .refused

namespace DropsRefused

variable (h : s.DropsRefused)
include h

theorem connect : s.connected.DropsRefused := by
  intro k conn hconn hdropped
  rcases mem_append.mp (mem_of_getElem? hconn) with hold | hnew
  · obtain ⟨j, hj⟩ := mem_iff_getElem?.mp hold
    exact h hj hdropped
  · cases mem_singleton.mp hnew
    cases hdropped

theorem update (hf : ∀ {conn}, s.conns[k]? = some conn → (f conn).host = .dropped →
      (f conn).relay = .refused) : (s.update k f).DropsRefused := by
  intro j conn hconn
  exact forall_update (P := fun _ conn => conn.host = .dropped → conn.relay = .refused) hconn hf
    fun _ hconn => h hconn

theorem relayed (hconn : s.conns[k]? = some conn) (hrequested : conn.relay = .requested) :
    (s.relayed k).DropsRefused := by
  have hupdate (relay : Relay) : (s.update k fun conn => { conn with relay }).DropsRefused := by
    apply h.update
    intro conn' hconn' hdropped
    cases hconn.symm.trans hconn'
    cases hrequested.symm.trans (h hconn hdropped)
  unfold Handshake.relayed
  split
  · exact hupdate .refused
  · exact hupdate .queued

theorem drop (hrefused : ∀ {conn}, s.conns[k]? = some conn → conn.relay = .refused) :
    (s.drop k).DropsRefused := by
  have hupdate : (s.update k fun conn => { conn with host := .dropped }).DropsRefused := by
    apply h.update
    intro conn hconn _
    have hrelay := hrefused hconn
    exact hrelay
  exact hupdate

theorem wire (f : List UInt8 → List UInt8) :
    (s.update k fun conn => { conn with wire := f conn.wire }).DropsRefused := by
  apply h.update
  intro conn hconn hdropped
  have hrelay := h hconn hdropped
  exact hrelay

theorem step (hok : s.givesUpRefused event)
    (hstep : s.step config event = some s') : s'.DropsRefused := by
  cases move_of_step hstep with
  | connect => exact h.connect
  | relay hconn hrequested => exact h.relayed hconn hrequested
  | refusal hagent hconn hrefused =>
    apply h.drop
    intro conn' hconn'
    cases hconn.symm.trans hconn'
    exact hrefused
  | giveUp hagent =>
    apply h.drop
    intro conn hconn
    simpa [givesUpRefused, hagent, hconn] using hok
  | @write k n rest => exact h.wire (· ++ rest.take n)
  | shutdown =>
    have hupdate {k} : (s.update k fun conn => { conn with host := .shut }).DropsRefused :=
      h.update fun _ hdropped => by cases hdropped
    exact hupdate
  | @read k n => exact h.wire (List.drop n)
  | ack | expire | listen | accept | eof => exact h

end DropsRefused

/-- A connection that guest-init accepted was not given up. -/
theorem Sound.kept (h : s.Sound config) (hdrops : s.DropsRefused) (hguest : s.guest.conn? = some k)
    (hconn : s.conns[k]? = some conn) : conn.host ≠ .dropped := by
  intro hdropped
  obtain ⟨conn', hconn', hqueued⟩ := h.accepted hguest
  cases hconn.symm.trans hconn'
  cases hqueued.symm.trans (hdrops hconn hdropped)

theorem Sound.parsing_eq (h : s.Sound config) (hdrops : s.DropsRefused)
    (hguest : s.guest = .parsing k configJson) : configJson = config := by
  obtain ⟨conn, hconn, hwire, hheld⟩ := h.ended hguest
  have hcarried := h.carried hconn
  have hdropped := h.kept hdrops (by rw [hguest]; rfl) hconn
  cases hhost : conn.host with
  | held => exact absurd hhost hheld
  | dropped => exact absurd hhost hdropped
  | shut => simpa [Carried, hhost, hguest, hwire, Reader.received] using hcarried

theorem DropsRefused.of_run {schedule}
    (hok : Along (Handshake.step config) (fun s event => s.givesUpRefused event)
      .start schedule)
    (hrun : run (Handshake.step config) .start schedule = some s) : s.DropsRefused :=
  run_preserves (fun hok (h : DropsRefused _) hstep => h.step hok hstep)
    (fun _ _ hconn => by cases hconn) hok hrun

end Handshake

/-- While no attempt is given up whose connection the guest may still get, guest-init parses
the config as the agent meant to send it, and it never has a connection that was given up. -/
theorem whole_config_parsed {config : List UInt8} {schedule : List HandshakeEvent} {s : Handshake}
    (hok : Along (Handshake.step config) (fun s event => s.givesUpRefused event = true)
      .start schedule) (hrun : run (Handshake.step config) .start schedule = some s) :
    (∀ k configJson, s.guest = .parsing k configJson → configJson = config) ∧
      ∀ k conn, s.guest.conn? = some k → s.conns[k]? = some conn → conn.host ≠ .dropped := by
  have hsound : s.Sound config := .of_run hrun
  have hdrops : s.DropsRefused := .of_run hok hrun
  constructor
  · intro k configJson hguest
    exact hsound.parsing_eq hdrops hguest
  · intro k conn hguest hconn
    exact hsound.kept hdrops hguest hconn

/-- An attempt that comes too early is refused; the next hands over the config in two writes,
which guest-init reads as they come. -/
def deliverySchedule : List HandshakeEvent :=
  [.connect, .relay 0, .refusal, .listen, .connect, .relay 1, .ack, .write 1, .accept, .read 1,
    .write 1, .shutdown, .read 1, .eof]

theorem second_attempt_parsed :
    ∃ s, run (Handshake.step [123, 125]) .start deliverySchedule = some s ∧
      s.guest = .parsing 1 [123, 125] ∧
      ∀ k conn, s.guest.conn? = some k → s.conns[k]? = some conn → conn.host ≠ .dropped := by
  have hends : run (Handshake.step [123, 125]) .start deliverySchedule = some _ := rfl
  exact ⟨_, hends, rfl, (whole_config_parsed (by decide) hends).2⟩

/-- The guest queues a connection whose `OK` takes more than a second. The agent gives the
attempt up, and guest-init accepts what is left of it: a connection that ends at once. -/
theorem given_up_connection_parsed :
    ∃ s, run (Handshake.step [123, 125]) .start
        [.listen, .connect, .relay 0, .giveUp, .accept, .eof] = some s ∧
      s.guest = .parsing 0 [] ∧ s.conns[0]?.map Conn.host = some .dropped :=
  ⟨_, rfl, rfl, rfl⟩

end Cirrocumulus.Guest
