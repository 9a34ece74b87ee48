/-
# The egress policy

One nftables table says what VMs may reach. Every agent on a Node applies it as it starts, by
a script that declares the table, writes its rules from scratch and adds the agent's subnet
and egress interface to the table's sets. So however often and in whatever order that
happens, the rules are those of one script and the sets hold what all of them gave.

The rules key on a packet's source, which a guest may choose. The first rule of each chain
therefore drops what comes from a VM without a VM's source.
-/

import Cirrocumulus.Lib.Nftables
import Cirrocumulus.Lib.Runs

namespace Cirrocumulus.Node.Egress

open List Option
open Lib.Nft

/-- The chains of the table `ip cirro`. -/
inductive Chain
  | postrouting | forward | input
  deriving DecidableEq

/-- The sets of the table. -/
inductive SetName
  | nodeSubnets | egressIfaces | lan
  deriving DecidableEq

/-- The table's rules and commands. -/
abbrev PolicyRule := Rule SetName
abbrev PolicyTable := Table Chain SetName

/-- `LAN_RANGES`: `10.0.0.0/8`, `100.64.0.0/10`, `169.254.0.0/16`, `172.16.0.0/12` and
`192.168.0.0/16`. -/
def lanRanges : List Cidr :=
  [⟨0x0A000000, 8, by decide, by decide⟩, ⟨0x64400000, 10, by decide, by decide⟩,
    ⟨0xA9FE0000, 16, by decide, by decide⟩, ⟨0xAC100000, 12, by decide, by decide⟩,
    ⟨0xC0A80000, 16, by decide, by decide⟩]

/-- An interface of a VM, `"cirro-*"`. -/
def fromVm : Match SetName := .iifname "cirro-"

/-- The rules that the script adds to each chain. -/
def policyRules : Chain → List PolicyRule
  | .postrouting => [⟨[.saddrIn .nodeSubnets, .oifnameIn .egressIfaces], .masquerade⟩]
  | .forward =>
    [⟨[fromVm, .saddrNotIn .nodeSubnets], .drop⟩,
      ⟨[fromVm, .saddrIn .nodeSubnets, .tcpDport 25], .drop⟩,
      ⟨[fromVm, .saddrIn .nodeSubnets, .daddrIn .nodeSubnets], .drop⟩,
      ⟨[fromVm, .saddrIn .nodeSubnets, .daddrIn .lan], .drop⟩]
  | .input =>
    [⟨[fromVm, .saddrNotIn .nodeSubnets], .drop⟩,
      ⟨[fromVm, .saddrIn .nodeSubnets, .ctStateNew], .drop⟩]

/-- What an agent calls `ensure_node_policy` with. -/
structure Call where
  subnet : Cidr
  egressIface : Option Str

/-- The `table` block of the script. -/
def declarations : List (Command Chain SetName) :=
  [.addSet .nodeSubnets [], .addSet .egressIfaces [], .addSet .lan (lanRanges.map .net),
    .addChain .postrouting, .addChain .forward, .addChain .input]

def flushes : List (Command Chain SetName) :=
  [.flushChain .postrouting, .flushChain .forward, .flushChain .input]

def ruleCommands (chain : Chain) : List (Command Chain SetName) :=
  (policyRules chain).map (.addRule chain)

/-- The script's last lines. -/
def additions (call : Call) : List (Command Chain SetName) :=
  .addElement .nodeSubnets (.net call.subnet) ::
    call.egressIface.toList.map fun iface => .addElement .egressIfaces (.iface iface)

variable (table : PolicyTable)

/-- `ensure_node_policy`. -/
def ensureNodePolicy (call : Call) : Option PolicyTable :=
  table.commit (declarations ++ flushes ++ ruleCommands .postrouting ++ ruleCommands .forward ++
    ruleCommands .input ++ additions call)

/-! ## One call -/

/-- The subnets that calls gave, as elements. -/
def IsSubnet (calls : List Call) (element : Element) : Prop :=
  ∃ call ∈ calls, element = .net call.subnet

/-- The interfaces that calls gave, as elements. -/
def IsIface (calls : List Call) (element : Element) : Prop :=
  ∃ call ∈ calls, ∃ iface, call.egressIface = some iface ∧ element = .iface iface

/-- A table whose sets hold what these calls gave, or that is not declared if there were
none. -/
structure Holds (calls : List Call) (table : PolicyTable) : Prop where
  subnets : ∀ element, element ∈ (table.sets .nodeSubnets).getD [] ↔ IsSubnet calls element
  ifaces : ∀ element, element ∈ (table.sets .egressIfaces).getD [] ↔ IsIface calls element
  lan : (table.sets .lan).getD [] = [] ∨ (table.sets .lan).getD [] = lanRanges.map .net

/-- A table to which the policy was applied, last with its rules as they should be. -/
structure Applied (calls : List Call) (table : PolicyTable) : Prop where
  rules : ∀ chain, table.chains chain = some (policyRules chain)
  subnets : ∃ elements, table.sets .nodeSubnets = some elements ∧
    ∀ element, element ∈ elements ↔ IsSubnet calls element
  ifaces : ∃ elements, table.sets .egressIfaces = some elements ∧
    ∀ element, element ∈ elements ↔ IsIface calls element
  lan : table.sets .lan = some (lanRanges.map .net)

variable {calls : List Call}

theorem Holds.empty : Holds [] Table.empty where
  subnets element := by simp [Table.empty, IsSubnet]
  ifaces element := by simp [Table.empty, IsIface]
  lan := .inl rfl

theorem Applied.holds {table} (h : Applied calls table) : Holds calls table where
  subnets element := by
    obtain ⟨elements, hset, hmem⟩ := h.subnets
    simpa [hset] using hmem element
  ifaces element := by
    obtain ⟨elements, hset, hmem⟩ := h.ifaces
    simpa [hset] using hmem element
  lan := .inr (by rw [h.lan]; rfl)

/-- Declaring adds the private ranges once. -/
theorem insert_lanRanges {elements} (h : elements = [] ∨ elements = lanRanges.map .net) :
    (lanRanges.map Element.net).foldlM insertElement elements = some (lanRanges.map .net) := by
  rcases h with rfl | rfl <;> decide

/-- The table behind the script's rules, whatever it was before. -/
def ruled : PolicyTable where
  chains chain := some (policyRules chain)
  sets
    | .nodeSubnets => some ((table.sets .nodeSubnets).getD [])
    | .egressIfaces => some ((table.sets .egressIfaces).getD [])
    | .lan => some (lanRanges.map .net)

/-- The table behind the `table` block. -/
def declared : PolicyTable :=
  { ruled table with chains := fun chain => some ((table.chains chain).getD []) }

theorem commit_declarations {table} (h : Holds calls table) :
    table.commit declarations = some (declared table) := by
  have hlan := insert_lanRanges h.lan
  simp only [declarations, Table.commit_cons, Table.commit_nil, Table.exec, Table.setElements,
    Table.setChain, foldlM_nil, Option.pure_def, map_some, bind_some,
    Function.update_of_ne, ne_eq, reduceCtorEq, not_false_eq_true, hlan]
  apply congrArg some
  apply congrArg₂ Table.mk
  · funext chain
    cases chain <;> rfl
  · funext set
    cases set <;> rfl

theorem commit_flushes :
    (declared table).commit flushes = some { ruled table with chains := fun _ => some [] } := by
  apply congrArg some
  apply congrArg₂ Table.mk
  · funext chain
    cases chain <;> rfl
  · rfl

/-- Every rule looks only into sets that the script declares. -/
theorem declares_policyRules {table : PolicyTable} (hsets : ∀ set, (table.sets set).isSome)
    (chain : Chain) : ∀ rule ∈ policyRules chain, table.declares rule := by
  cases chain <;> simp [policyRules, Table.declares, fromVm, Match.set?, hsets]

theorem isSome_ruled (set : SetName) : ((ruled table).sets set).isSome := by
  cases set <;> rfl

theorem commit_rules {table : PolicyTable} (hsets : ∀ set, (table.sets set).isSome)
    {chain} (hempty : table.chains chain = some []) :
    table.commit (ruleCommands chain) = some (table.setChain chain (policyRules chain)) :=
  Table.commit_addRules hempty (declares_policyRules hsets chain)

/-- The script's rules are the table's only rules. -/
theorem commit_policy {table} (h : Holds calls table)
    (call : Call) : ensureNodePolicy table call = (ruled table).commit (additions call) := by
  have hsets := isSome_ruled table
  simp only [ensureNodePolicy, Table.commit_append, commit_declarations h, bind_some,
    commit_flushes]
  rw [commit_rules (by exact hsets) rfl, bind_some, commit_rules (by exact hsets) rfl,
    bind_some, commit_rules (by exact hsets) rfl, bind_some]
  apply congrArg fun table : PolicyTable => table.commit (additions call)
  apply congrArg₂ Table.mk
  · funext chain
    cases chain <;> rfl
  · rfl

/-- Two calls whose subnets are the same or have nothing in common. -/
def Compatible (a b : Call) : Prop := a.subnet = b.subnet ∨ a.subnet.Disjoint b.subnet

/-- A call adds its subnet, and its interface if it has one. -/
theorem Holds.ensure {table} (h : Holds calls table)
    (call : Call) (hcompatible : ∀ other ∈ calls, Compatible other call) :
    ∃ next, ensureNodePolicy table call = some next ∧ Applied (call :: calls) next := by
  rw [commit_policy h]
  obtain ⟨subnets, hinsert⟩ : ∃ subnets,
      insertElement ((table.sets .nodeSubnets).getD []) (.net call.subnet) = some subnets := by
    apply insertElement_isSome
    intro element hmem
    obtain ⟨other, hother, rfl⟩ := (h.subnets element).mp hmem
    rcases hcompatible other hother with heq | hdisjoint
    · exact .inl (congrArg _ heq)
    · exact .inr hdisjoint.overlaps_eq_false
  have hsubnets (element : Element) : element ∈ subnets ↔ IsSubnet (call :: calls) element := by
    rw [mem_insertElement hinsert, h.subnets]
    simp [IsSubnet, or_comm]
  have hexec : (ruled table).exec (.addElement .nodeSubnets (.net call.subnet)) =
      some ((ruled table).setElements .nodeSubnets subnets) := by
    simp [Table.exec, ruled, hinsert]
  rw [additions, Table.commit_cons, hexec, bind_some]
  cases hiface : call.egressIface with
  | none =>
    refine ⟨_, rfl, fun _ => rfl, ⟨subnets, rfl, hsubnets⟩, ⟨_, rfl, ?_⟩, rfl⟩
    intro element
    rw [h.ifaces]
    simp [IsIface, hiface]
  | some iface =>
    obtain ⟨ifaces, hinsert'⟩ : ∃ ifaces,
        insertElement ((table.sets .egressIfaces).getD []) (.iface iface) = some ifaces := by
      apply insertElement_isSome
      intro element hmem
      obtain ⟨other, -, name, -, rfl⟩ := (h.ifaces element).mp hmem
      exact .inr rfl
    have hexec' : ((ruled table).setElements .nodeSubnets subnets).exec
        (.addElement .egressIfaces (.iface iface)) =
          some (((ruled table).setElements .nodeSubnets subnets).setElements .egressIfaces
            ifaces) := by
      simp [Table.exec, Table.setElements, ruled, hinsert']
    rw [toList_some, map_singleton, Table.commit_cons, hexec', bind_some,
      Table.commit_nil]
    refine ⟨_, rfl, fun _ => rfl, ⟨subnets, rfl, hsubnets⟩, ⟨ifaces, rfl, ?_⟩, rfl⟩
    intro element
    rw [mem_insertElement hinsert', h.ifaces]
    simp [IsIface, hiface, or_comm]

/-! ## Any sequence of calls -/

theorem Applied.run {done table} (h : Applied done table)
    (hcompatible : ∀ a ∈ calls ++ done, ∀ b ∈ calls ++ done, Compatible a b) :
    ∃ next, Lib.run ensureNodePolicy table calls = some next ∧
      Applied (calls.reverse ++ done) next := by
  induction calls generalizing done table with
  | nil => exact ⟨table, rfl, h⟩
  | cons call calls ih =>
    have hcall : ∀ other ∈ done, Compatible other call := by
      intro other hother
      exact hcompatible other (by simp [hother]) call (by simp)
    obtain ⟨next, hnext, happlied⟩ := h.holds.ensure call hcall
    have hsame : ∀ other ∈ calls ++ call :: done, other ∈ call :: calls ++ done := by
      intro other hother
      simpa [or_left_comm] using hother
    obtain ⟨final, hfinal, happlied'⟩ := ih happlied fun a ha b hb =>
      hcompatible a (hsame a ha) b (hsame b hb)
    refine ⟨final, Lib.run_cons_eq_some.mpr ⟨next, hnext, hfinal⟩, ?_⟩
    rw [reverse_cons, append_assoc]
    exact happlied'

/-! ## Packets -/

/-- A packet that comes from a VM's interface. -/
def FromVm (packet : Packet) : Prop := "cirro-" <+: packet.iif

theorem holds_fromVm {sets packet} : fromVm.holds sets packet ↔ FromVm packet :=
  isPrefixOf_iff_prefix

/-- An address in one of the calls' subnets. -/
def InSubnet (calls : List Call) (address : BitVec 32) : Prop :=
  ∃ call ∈ calls, call.subnet.contains address = true

def InLan (address : BitVec 32) : Prop := ∃ range ∈ lanRanges, range.contains address = true

theorem Applied.containsAddress_subnets {table} (h : Applied calls table) {address} :
    containsAddress ((table.sets .nodeSubnets).getD []) address ↔
      InSubnet calls address := by
  obtain ⟨elements, hset, hmem⟩ := h.subnets
  rw [hset, getD_some, containsAddress, List.any_eq_true]
  constructor
  · rintro ⟨element, helement, hcontains⟩
    obtain ⟨call, hcall, rfl⟩ := (hmem element).mp helement
    exact ⟨call, hcall, hcontains⟩
  · rintro ⟨call, hcall, hcontains⟩
    exact ⟨.net call.subnet, (hmem _).mpr ⟨call, hcall, rfl⟩, hcontains⟩

theorem Applied.containsAddress_lan {table} (h : Applied calls table) {address} :
    containsAddress ((table.sets .lan).getD []) address ↔ InLan address := by
  rw [h.lan, getD_some, containsAddress, List.any_map]
  exact List.any_eq_true

section Verdicts

variable {calls : List Call} {table : PolicyTable} (h : Applied calls table) {packet : Packet}
include h

/-- The forward chain drops what a VM sends unless it has a VM's source, goes to no VM and no
private range, and is no mail. -/
theorem Applied.forward_drops :
    table.verdict .forward packet = .drop ↔
      FromVm packet ∧ (¬ InSubnet calls packet.saddr ∨ packet.tcpDport = some 25 ∨
        InSubnet calls packet.daddr ∨ InLan packet.daddr) := by
  rw [Table.verdict, h.rules, getD_some, eval_eq_drop_iff (by simp [policyRules])]
  simp only [policyRules, mem_cons, not_mem_nil, or_false, exists_eq_or_imp,
    exists_eq_left, Rule.holds, all_cons, all_nil, Bool.and_true, Bool.and_eq_true,
    holds_fromVm]
  simp only [Match.holds, Bool.not_eq_true', ← Bool.not_eq_true, h.containsAddress_subnets,
    h.containsAddress_lan, beq_iff_eq]
  by_cases hsource : InSubnet calls packet.saddr <;> simp [hsource, and_or_left]

/-- The input chain drops what a VM sends to the Node unless it has a VM's source and opens no
connection. -/
theorem Applied.input_drops :
    table.verdict .input packet = .drop ↔
      FromVm packet ∧ (¬ InSubnet calls packet.saddr ∨ packet.ctNew) := by
  rw [Table.verdict, h.rules, getD_some, eval_eq_drop_iff (by simp [policyRules])]
  simp only [policyRules, mem_cons, not_mem_nil, or_false, exists_eq_or_imp,
    exists_eq_left, Rule.holds, all_cons, all_nil, Bool.and_true, Bool.and_eq_true,
    holds_fromVm]
  simp only [Match.holds, Bool.not_eq_true', ← Bool.not_eq_true, h.containsAddress_subnets]
  by_cases hsource : InSubnet calls packet.saddr <;> simp [hsource]

theorem Applied.postrouting_keeps : table.verdict .postrouting packet ≠ .drop := by
  rw [Table.verdict, h.rules, getD_some]
  simp only [policyRules, eval]
  split <;> rintro ⟨⟩

end Verdicts

/-- The policy holds however often it is applied. Calls whose subnets are equal or disjoint
all succeed; the table has the rules that any one call leaves, and sets of just what the
calls gave. What then gets past it from a VM has a VM's source, and goes to no VM, no private
range and no mail port; what gets to the Node opens no connection; and nothing is dropped
that comes from elsewhere. -/
theorem egress_policy_holds (first : Call) (rest : List Call)
    (hcompatible : ∀ a ∈ first :: rest, ∀ b ∈ first :: rest, Compatible a b) :
    ∃ table, Lib.run ensureNodePolicy .empty (first :: rest) = some table ∧
      (∀ call, ∃ one, ensureNodePolicy .empty call = some one ∧ table.chains = one.chains) ∧
      (∃ subnets, table.sets .nodeSubnets = some subnets ∧ ∀ element,
        element ∈ subnets ↔ IsSubnet (first :: rest) element) ∧
      (∃ ifaces, table.sets .egressIfaces = some ifaces ∧ ∀ element,
        element ∈ ifaces ↔ IsIface (first :: rest) element) ∧
      (∀ packet, FromVm packet → table.verdict .forward packet ≠ .drop →
        InSubnet (first :: rest) packet.saddr ∧ ¬ InSubnet (first :: rest) packet.daddr ∧
          ¬ InLan packet.daddr ∧ packet.tcpDport ≠ some 25) ∧
      (∀ packet, FromVm packet → table.verdict .input packet ≠ .drop →
        InSubnet (first :: rest) packet.saddr ∧ packet.ctNew = false) ∧
      ∀ packet, ¬ FromVm packet → ∀ chain, table.verdict chain packet ≠ .drop := by
  obtain ⟨one, hone, happlied⟩ := Holds.empty.ensure first (forall_mem_nil _)
  have hall : ∀ a ∈ rest ++ [first], ∀ b ∈ rest ++ [first], Compatible a b := by
    intro a ha b hb
    exact hcompatible a (by simpa [or_comm] using ha) b (by simpa [or_comm] using hb)
  obtain ⟨table, hrun, htable⟩ := happlied.run hall
  have hmem (call : Call) : call ∈ rest.reverse ++ [first] ↔ call ∈ first :: rest := by
    simp [or_comm]
  have hsubnet (address : BitVec 32) :
      InSubnet (rest.reverse ++ [first]) address ↔ InSubnet (first :: rest) address := by
    simp only [InSubnet, hmem]
  refine ⟨table, Lib.run_cons_eq_some.mpr ⟨one, hone, hrun⟩, ?_, ?_, ?_, ?_, ?_, ?_⟩
  · intro call
    obtain ⟨next, hnext, hnext'⟩ := Holds.empty.ensure call (forall_mem_nil _)
    refine ⟨next, hnext, ?_⟩
    funext chain
    rw [htable.rules, hnext'.rules]
  · simpa only [IsSubnet, hmem] using htable.subnets
  · simpa only [IsIface, hmem] using htable.ifaces
  · intro packet hvm hkept
    rw [Ne, htable.forward_drops, hsubnet, hsubnet] at hkept
    simpa [hvm, not_or, and_comm, and_assoc, and_left_comm] using hkept
  · intro packet hvm hkept
    rw [Ne, htable.input_drops, hsubnet] at hkept
    simpa [hvm] using hkept
  · intro packet hvm chain
    cases chain with
    | postrouting => exact htable.postrouting_keeps
    | forward => rw [Ne, htable.forward_drops]; simp [hvm]
    | input => rw [Ne, htable.input_drops]; simp [hvm]

/-- `10.77.0.0/24` and `10.78.0.0/24`. -/
def sampleSubnet : Cidr := ⟨0x0A4D0000, 24, by decide, by decide⟩
def otherSubnet : Cidr := ⟨0x0A4E0000, 24, by decide, by decide⟩

theorem disjoint_samples : sampleSubnet.Disjoint otherSubnet := by
  rintro address ⟨hsample, hother⟩
  have hnetworks := (of_decide_eq_true hsample).symm.trans (of_decide_eq_true hother)
  exact absurd hnetworks (by decide)

/-- Two agents with subnets of their own, the first of which starts twice. -/
theorem policy_of_two_agents :
    ∃ table, Lib.run ensureNodePolicy .empty
        [⟨sampleSubnet, some "eth0"⟩, ⟨otherSubnet, none⟩, ⟨sampleSubnet, none⟩] =
          some table ∧
      ∀ packet, ¬ FromVm packet → ∀ chain, table.verdict chain packet ≠ .drop := by
  have hother : otherSubnet.Disjoint sampleSubnet :=
    fun address hboth => disjoint_samples address hboth.symm
  obtain ⟨table, hrun, -, -, -, -, -, hkept⟩ := egress_policy_holds
    ⟨sampleSubnet, some "eth0"⟩ [⟨otherSubnet, none⟩, ⟨sampleSubnet, none⟩]
    (by simp [Compatible, disjoint_samples, hother])
  exact ⟨table, hrun, hkept⟩

end Cirrocumulus.Node.Egress
