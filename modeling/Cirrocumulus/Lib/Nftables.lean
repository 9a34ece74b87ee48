/-
# A table of nftables

A table has named sets and chains of rules. A script of commands runs as one transaction:
it is done whole, or it fails and nothing is. Declaring what is there changes nothing, so a
script can be run again; a set only gains elements, and a chain loses its rules when it is
flushed. An interval set refuses an element that overlaps another without being equal to it.

A packet goes through a chain rule by rule until one matches. Behind the last rule the
chain's policy accepts it.
-/

import Cirrocumulus.Lib.Text

namespace Cirrocumulus.Lib.Nft

/-- An aligned block of addresses. -/
structure Cidr where
  network : BitVec 32
  prefixLen : Nat
  len_le : prefixLen ≤ 32
  aligned : network.toNat % 2 ^ (32 - prefixLen) = 0
  deriving DecidableEq

namespace Cidr

def contains (block : Cidr) (address : BitVec 32) : Bool :=
  decide (address.toNat / 2 ^ (32 - block.prefixLen) =
    block.network.toNat / 2 ^ (32 - block.prefixLen))

/-- Of two aligned blocks that overlap, one holds the other's first address. -/
def overlaps (a b : Cidr) : Bool := a.contains b.network || b.contains a.network

def Disjoint (a b : Cidr) : Prop :=
  ∀ address, ¬ (a.contains address = true ∧ b.contains address = true)

theorem contains_network (block : Cidr) : block.contains block.network := by
  simp [contains]

theorem Disjoint.overlaps_eq_false {a b : Cidr} (h : a.Disjoint b) : a.overlaps b = false := by
  have hb : a.contains b.network = false := by
    by_contra hcontains
    exact h b.network ⟨by simpa using hcontains, b.contains_network⟩
  have ha : b.contains a.network = false := by
    by_contra hcontains
    exact h a.network ⟨a.contains_network, by simpa using hcontains⟩
  rw [overlaps, ha, hb]
  rfl

end Cidr

inductive Element
  | net (block : Cidr)
  | iface (name : Str)
  deriving DecidableEq

def Element.overlaps : Element → Element → Bool
  | .net a, .net b => a.overlaps b
  | _, _ => false

/-! ## Rules -/

structure Packet where
  iif : Str
  oif : Str
  saddr : BitVec 32
  daddr : BitVec 32
  /-- The destination port, if the packet is TCP. -/
  tcpDport : Option Nat
  /-- The packet opens a connection. -/
  ctNew : Bool

inductive Match (ν : Type)
  /-- An interface whose name begins so: `iifname "pre*"`. -/
  | iifname (pre : Str)
  | oifnameIn (set : ν)
  | saddrIn (set : ν)
  | saddrNotIn (set : ν)
  | daddrIn (set : ν)
  | tcpDport (port : Nat)
  | ctStateNew

inductive Verdict
  | accept | drop | masquerade
  deriving DecidableEq

structure Rule (ν : Type) where
  matchers : List (Match ν)
  verdict : Verdict

structure Table (κ ν : Type) where
  /-- The rules of each chain that is declared. -/
  chains : κ → Option (List (Rule ν))
  /-- The elements of each set that is declared. -/
  sets : ν → Option (List Element)

section Packets

variable {κ ν : Type}

def containsAddress (set : List Element) (address : BitVec 32) : Bool :=
  set.any fun element => match element with
    | .net block => block.contains address
    | .iface _ => false

def Match.holds (sets : ν → Option (List Element)) (packet : Packet) : Match ν → Bool
  | .iifname pre => pre.isPrefixOf packet.iif
  | .oifnameIn set => ((sets set).getD []).contains (.iface packet.oif)
  | .saddrIn set => containsAddress ((sets set).getD []) packet.saddr
  | .saddrNotIn set => !containsAddress ((sets set).getD []) packet.saddr
  | .daddrIn set => containsAddress ((sets set).getD []) packet.daddr
  | .tcpDport port => packet.tcpDport == some port
  | .ctStateNew => packet.ctNew

def Rule.holds (sets : ν → Option (List Element)) (packet : Packet) (rule : Rule ν) : Bool :=
  rule.matchers.all (Match.holds sets packet)

/-- What becomes of a packet on its way through rules. -/
def eval (sets : ν → Option (List Element)) (packet : Packet) : List (Rule ν) → Verdict
  | [] => .accept
  | rule :: rest => if rule.holds sets packet then rule.verdict else eval sets packet rest

def Table.verdict (table : Table κ ν) (chain : κ) (packet : Packet) : Verdict :=
  eval table.sets packet ((table.chains chain).getD [])

/-- Rules that only drop drop what one of them matches. -/
theorem eval_eq_drop_iff {sets : ν → Option (List Element)} {packet}
    {rules : List (Rule ν)} (hdrop : ∀ rule ∈ rules, rule.verdict = .drop) :
    eval sets packet rules = .drop ↔ ∃ rule ∈ rules, rule.holds sets packet := by
  induction rules with
  | nil => simp [eval]
  | cons rule rules ih =>
    rw [List.forall_mem_cons] at hdrop
    rw [eval, List.exists_mem_cons_iff, ← ih hdrop.2]
    by_cases hholds : rule.holds sets packet
    · simp [hholds, hdrop.1]
    · simp [hholds]

end Packets

/-! ## Transactions -/

inductive Command (κ ν : Type)
  /-- A set of the `table` block. -/
  | addSet (set : ν) (elements : List Element)
  /-- A chain of the `table` block. -/
  | addChain (chain : κ)
  | flushChain (chain : κ)
  | addRule (chain : κ) (rule : Rule ν)
  | addElement (set : ν) (element : Element)

def insertElement (set : List Element) (element : Element) : Option (List Element) :=
  if element ∈ set then some set
  else if set.any fun other => other.overlaps element then none
  else some (set ++ [element])

/-- The set that a match looks into. -/
def Match.set? {ν : Type} : Match ν → Option ν
  | .oifnameIn set | .saddrIn set | .saddrNotIn set | .daddrIn set => some set
  | .iifname _ | .tcpDport _ | .ctStateNew => none

section Transactions

variable {κ ν : Type} [DecidableEq κ] [DecidableEq ν]

namespace Table

def empty : Table κ ν := ⟨fun _ => none, fun _ => none⟩

variable (table : Table κ ν)

def setChain (chain : κ) (rules : List (Rule ν)) : Table κ ν :=
  { table with chains := Function.update table.chains chain (some rules) }

def setElements (set : ν) (elements : List Element) : Table κ ν :=
  { table with sets := Function.update table.sets set (some elements) }

/-- A rule may look only into sets that are declared. -/
def declares (rule : Rule ν) : Bool :=
  rule.matchers.all fun m => m.set?.all fun set => (table.sets set).isSome

def exec : Command κ ν → Option (Table κ ν)
  | .addSet set elements =>
    (elements.foldlM insertElement ((table.sets set).getD [])).map (table.setElements set)
  | .addChain chain => some (table.setChain chain ((table.chains chain).getD []))
  | .flushChain chain => (table.chains chain).map fun _ => table.setChain chain []
  | .addRule chain rule => do
      let rules ← table.chains chain
      if table.declares rule then some (table.setChain chain (rules ++ [rule])) else none
  | .addElement set element => do
      let elements ← table.sets set
      let elements ← insertElement elements element
      some (table.setElements set elements)

/-- A script, as one transaction. -/
def commit (script : List (Command κ ν)) : Option (Table κ ν) :=
  script.foldlM exec table

variable {table : Table κ ν}

@[simp]
theorem commit_nil : table.commit [] = some table := rfl

@[simp]
theorem commit_cons {command} {script : List (Command κ ν)} :
    table.commit (command :: script) = (table.exec command).bind fun next => next.commit script :=
  rfl

theorem commit_append {first second : List (Command κ ν)} :
    table.commit (first ++ second) = (table.commit first).bind fun next => next.commit second := by
  induction first generalizing table with
  | nil => rfl
  | cons command first ih =>
    rw [List.cons_append, commit_cons, commit_cons, Option.bind_assoc]
    exact Option.bind_congr fun next _ => ih

/-- Rules go behind those that are there. -/
theorem commit_addRules {chain} {rules added : List (Rule ν)}
    (hchain : table.chains chain = some rules)
    (hdeclared : ∀ rule ∈ added, table.declares rule) :
    table.commit (added.map (.addRule chain)) = some (table.setChain chain (rules ++ added)) := by
  induction added generalizing table rules with
  | nil =>
    rw [List.map_nil, commit_nil, List.append_nil, setChain, ← hchain, Function.update_eq_self]
  | cons rule added ih =>
    rw [List.forall_mem_cons] at hdeclared
    have hexec :
        table.exec (.addRule chain rule) = some (table.setChain chain (rules ++ [rule])) := by
      simp [exec, hchain, hdeclared.1]
    have hnext :
        (table.setChain chain (rules ++ [rule])).chains chain = some (rules ++ [rule]) := by
      simp [setChain]
    rw [List.map_cons, commit_cons, hexec, Option.bind_some, ih hnext hdeclared.2]
    simp [setChain]

end Table

omit [DecidableEq κ] [DecidableEq ν] in
theorem mem_insertElement {set result element} (h : insertElement set element = some result)
    (other : Element) : other ∈ result ↔ other ∈ set ∨ other = element := by
  unfold insertElement at h
  split at h
  case isTrue hmem =>
    cases h
    constructor
    · exact .inl
    · rintro (hother | rfl)
      · exact hother
      · exact hmem
  case isFalse =>
    split at h
    · cases h
    · cases h
      simp

omit [DecidableEq κ] [DecidableEq ν] in
theorem insertElement_isSome {set element}
    (h : ∀ other ∈ set, other = element ∨ other.overlaps element = false) :
    ∃ result, insertElement set element = some result := by
  unfold insertElement
  split
  · exact ⟨set, rfl⟩
  case isFalse hmem =>
    have hnone : (set.any fun other => other.overlaps element) = false := by
      rw [List.any_eq_false]
      intro other hother
      rcases h other hother with rfl | hdisjoint
      · exact absurd hother hmem
      · simp [hdisjoint]
    rw [hnone]
    exact ⟨_, rfl⟩

end Transactions

end Cirrocumulus.Lib.Nft
