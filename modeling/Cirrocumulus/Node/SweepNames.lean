/-
# What the sweep finds by name

The sweep of a starting agent lists four directories, reads 16 bits out of each name it
can, and takes them for the VM address of the subnet that ends in them. An address it
cleans up is always a VM address that no entry holds. That some object carries the name
`host_id` gives the address does not follow: the hexadecimal digits may be capitals or
begin with a plus, and then the name belongs to nobody.
-/

import Cirrocumulus.Node.Sweep

namespace Cirrocumulus.Node

open List Option
open Std (ExtTreeMap ExtTreeSet)

/-! ## The names that are found -/

/-- What `read_dir` gives: nothing of a directory that can't be read, and no name for an
entry that can't be read or whose name isn't UTF-8. -/
abbrev Listing := Option (List (Option Str))

/-- `host_state_owners`' `names_in`. -/
def namesIn (dir : Listing) : List Str := (dir.getD []).filterMap id

/-- The directories whose entries are named by `host_id`. -/
structure HostDirs where
  netns : Listing
  netDevices : Listing
  jails : Listing
  cgroups : Listing

def HostDirs.names (dirs : HostDirs) : List Str :=
  [dirs.netns, dirs.netDevices, dirs.jails, dirs.cgroups].flatMap namesIn

/-- `host_state_owners`. -/
def hostStateOwners (dirs : HostDirs) : ExtTreeSet (BitVec 16) compare :=
  .ofList (dirs.names.filterMap parseHostId)

/-- `sweep_host_state`: the addresses it calls `clean_up` for, in this order. -/
def sweepHostState (subnet : Subnet) (vms : Table) (dirs : HostDirs) : List Ipv4Addr :=
  let held := vms.toList.filterMap fun item => item.2.vmAddress
  (hostStateOwners dirs).toList.filterMap fun owner =>
    (subnet.vmAddressWithLow16 owner).filter fun vmAddress => !held.contains vmAddress

/-! ## What is meant to be swept -/

/-- A start, a wake or a VM that runs has the address. -/
def Table.Holds (vms : Table) (address : Ipv4Addr) : Prop :=
  ∃ name : Str, (∃ log route, vms[name]? = some (.starting address log route)) ∨
    ∃ info log task, vms[name]? = some (.running info log task) ∧ info.vmAddress = some address

/-- An object has the name of the address, and no VM the address. -/
def LeftOver (subnet : Subnet) (vms : Table) (dirs : HostDirs) (address : Ipv4Addr) : Prop :=
  address ∈ subnet.vmAddresses ∧ hostId address ∈ dirs.names ∧ ¬ vms.Holds address

/-- No name stands for a free address without being its name, unless that name is there
as well. -/
def Spelled (subnet : Subnet) (vms : Table) (dirs : HostDirs) : Prop :=
  ∀ name ∈ dirs.names, ∀ address ∈ subnet.vmAddresses, ¬ vms.Holds address →
    parseHostId name = some (low16 address) → hostId address ∈ dirs.names

section

variable {subnet : Subnet} {vms : Table} {dirs : HostDirs} {address : Ipv4Addr}
  {low : BitVec 16}

theorem Table.holds_iff {vms : Table} : vms.Holds address ↔
    ∃ (name : Str) (entry : Entry), vms[name]? = some entry ∧ entry.vmAddress = some address := by
  constructor
  · rintro ⟨name, ⟨log, route, hentry⟩ | ⟨info, log, task, hentry, haddress⟩⟩
    · exact ⟨name, _, hentry, rfl⟩
    · exact ⟨name, _, hentry, haddress⟩
  · rintro ⟨name, entry, hentry, haddress⟩
    cases entry with
    | starting held log route =>
      cases haddress
      exact ⟨name, .inl ⟨log, route, hentry⟩⟩
    | running info log task => exact ⟨name, .inr ⟨info, log, task, hentry, haddress⟩⟩
    | ended info log => cases haddress

theorem Table.exists_mem_toList_iff {vms : Table} :
    (∃ item ∈ vms.toList, item.2.vmAddress = some address) ↔ vms.Holds address := by
  rw [Table.holds_iff]
  constructor
  · rintro ⟨⟨name, entry⟩, hitem, haddress⟩
    exact ⟨name, entry, Lib.mem_items.mp hitem, haddress⟩
  · rintro ⟨name, entry, hentry, haddress⟩
    exact ⟨(name, entry), Lib.mem_items.mpr hentry, haddress⟩

theorem mem_hostStateOwners :
    low ∈ hostStateOwners dirs ↔ ∃ name ∈ dirs.names, parseHostId name = some low := by
  rw [hostStateOwners, ExtTreeSet.mem_ofList, contains_iff_mem, mem_filterMap]

/-- An address that is found by 16 bits ends in them. -/
theorem Subnet.low16_of_vmAddressWithLow16 (subnet : Subnet)
    (h : subnet.vmAddressWithLow16 low = some address) : low16 address = low := by
  unfold vmAddressWithLow16 at h
  dsimp only at h
  split at h
  · cases h
    apply BitVec.eq_of_getLsbD_eq
    intro i hi
    simp [low16, hi]
  · cases h

/-- The 16 bits and the VM address of the subnet determine each other. -/
theorem Subnet.vmAddressWithLow16_eq_some (subnet : Subnet) :
    subnet.vmAddressWithLow16 low = some address ↔
      address ∈ subnet.vmAddresses ∧ low16 address = low := by
  constructor
  · intro h
    exact ⟨subnet.mem_of_vmAddressWithLow16 h, subnet.low16_of_vmAddressWithLow16 h⟩
  · rintro ⟨hmem, rfl⟩
    exact subnet.vmAddressWithLow16_low16 hmem

/-- What the sweep cleans up: free addresses that some name is taken for. -/
theorem mem_sweepHostState : address ∈ sweepHostState subnet vms dirs ↔
    address ∈ subnet.vmAddresses ∧ ¬ vms.Holds address ∧
      ∃ name ∈ dirs.names, parseHostId name = some (low16 address) := by
  simp only [sweepHostState, mem_filterMap, ExtTreeSet.mem_toList, filter_eq_some_iff,
    Bool.not_eq_true', Bool.eq_false_iff, ne_eq, contains_iff_mem,
    Table.exists_mem_toList_iff, subnet.vmAddressWithLow16_eq_some]
  constructor
  · rintro ⟨low, howner, ⟨hmem, rfl⟩, hfree⟩
    exact ⟨hmem, hfree, mem_hostStateOwners.mp howner⟩
  · rintro ⟨hmem, hfree, hname⟩
    exact ⟨low16 address, mem_hostStateOwners.mpr hname, ⟨hmem, rfl⟩, hfree⟩

theorem mem_sweepHostState_of_leftOver (h : LeftOver subnet vms dirs address) :
    address ∈ sweepHostState subnet vms dirs :=
  mem_sweepHostState.mpr ⟨h.1, h.2.2, hostId address, h.2.1, parseHostId_hostId address⟩

/-- `clean_up` is called once for each address. -/
theorem sweepHostState_nodup : (sweepHostState subnet vms dirs).Nodup := by
  rw [sweepHostState, List.Nodup, pairwise_filterMap]
  refine (ExtTreeSet.distinct_toList (t := hostStateOwners dirs)).imp ?_
  intro first second hne a ha b hb heq
  have hfirst := subnet.low16_of_vmAddressWithLow16 (filter_eq_some_iff.mp ha).1
  have hsecond := subnet.low16_of_vmAddressWithLow16 (filter_eq_some_iff.mp hb).1
  exact hne (Std.LawfulEqCmp.compare_eq_iff_eq.mpr (by rw [← hfirst, ← hsecond, heq]))

end

/-! ## The sweep is exact -/

/-- The Node address and the broadcast address are in the block, and no VM addresses. -/
theorem Subnet.ne_of_mem (subnet : Subnet) {address} (h : address ∈ subnet.vmAddresses) :
    address ≠ subnet.nodeAddress ∧ address ≠ subnet.broadcast := by
  obtain ⟨hlow, hhigh⟩ := subnet.mem_vmAddresses.mp h
  constructor
  · rintro rfl
    omega
  · rintro rfl
    omega

/-- The sweep cleans up no address twice, and only VM addresses of the subnet that no VM
holds. It cleans up exactly those whose names it found when every name it read is spelled
as `host_id` spells it, and only then. -/
theorem sweepHostState_exact_iff (subnet : Subnet) (vms : Table) (dirs : HostDirs) :
    (sweepHostState subnet vms dirs).Nodup ∧
      (∀ address ∈ sweepHostState subnet vms dirs, ¬ vms.Holds address ∧
        address ≠ subnet.nodeAddress ∧ address ≠ subnet.broadcast ∧ subnet.Contains address) ∧
      ((∀ address, address ∈ sweepHostState subnet vms dirs ↔ LeftOver subnet vms dirs address) ↔
        Spelled subnet vms dirs) := by
  refine ⟨sweepHostState_nodup, ?_, ?_⟩
  · intro address hmem
    obtain ⟨hvm, hfree, -⟩ := mem_sweepHostState.mp hmem
    obtain ⟨hnode, hbroadcast⟩ := subnet.ne_of_mem hvm
    exact ⟨hfree, hnode, hbroadcast, subnet.contains_of_mem hvm⟩
  · constructor
    · intro hexact name hname address hvm hfree hparse
      have hswept := mem_sweepHostState.mpr ⟨hvm, hfree, name, hname, hparse⟩
      exact ((hexact address).mp hswept).2.1
    · intro hspelled address
      refine ⟨fun hmem => ?_, mem_sweepHostState_of_leftOver⟩
      obtain ⟨hvm, hfree, name, hname, hparse⟩ := mem_sweepHostState.mp hmem
      exact ⟨hvm, hspelled name hname address hvm hfree hparse, hfree⟩

/-- A namespace with a capital letter in its name is taken for a VM's: the sweep cleans
up an address under whose name nothing was found. -/
theorem sweepHostState_takes_capitals :
    let dirs : HostDirs := ⟨some [some "cirro-000A"], some [], some [], none⟩
    0x0A4D000A#32 ∈ sweepHostState .sample ∅ dirs ∧ ¬ LeftOver .sample ∅ dirs 0x0A4D000A#32 := by
  refine ⟨by decide +kernel, ?_⟩
  rintro ⟨-, hname, -⟩
  revert hname
  decide +kernel

/-! ## The sweep of a Node -/

/-- The directories show the objects that are there, among what else they list. -/
def HostDirs.Show (dirs : HostDirs) (host : Host) : Prop :=
  ∀ name low, parseHostId name = some low →
    (name ∈ dirs.names ↔ (host.objectsAt name).present = true)

section

variable {subnet : Subnet} {vms : Table} {dirs : HostDirs} {host : Host} {address : Ipv4Addr}

/-- What the Node's sweep has to do is what the directories say. -/
theorem HostDirs.Show.mem_unheld (h : dirs.Show host) :
    address ∈ host.unheld subnet vms ↔ address ∈ sweepHostState subnet vms dirs := by
  simp only [Host.mem_unheld, mem_sweepHostState, Table.holds_iff, not_exists, not_and,
    Host.stateOwners, mem_filterMap, mem_filter, Prod.exists, subnet.vmAddressWithLow16_eq_some]
  constructor
  · rintro ⟨⟨low, ⟨name, objects, hitem, hparse⟩, hvm, rfl⟩, hfree⟩
    have hname := (h name _ hparse).mpr (host.present_iff.mpr ⟨objects, hitem⟩)
    exact ⟨hvm, hfree, name, hname, hparse⟩
  · rintro ⟨hvm, hfree, name, hname, hparse⟩
    obtain ⟨objects, hitem⟩ := host.present_iff.mp ((h name _ hparse).mp hname)
    exact ⟨⟨low16 address, ⟨name, objects, hitem, hparse⟩, hvm, rfl⟩, hfree⟩

theorem HostDirs.exists_show (host : Host) : ∃ dirs : HostDirs, dirs.Show host := by
  refine ⟨⟨some ((host.objects.toList.filter (·.2.present)).map (some ·.1)), none, none, none⟩,
    fun name _ _ => ?_⟩
  rw [Host.present_iff]
  simp [HostDirs.names, namesIn]

/-- Whatever agents have done on a Node, and whichever VMs hold addresses: a sweep that can read
its directories cleans up exactly the VM addresses of which an object is left and that no VM
holds. It is the sweep of the Node's agents. -/
theorem sweep_exact_on_node {schedule node}
    (hrun : Lib.run (System.step subnet) .fresh schedule = some node)
    (hshow : dirs.Show node.host) (vms : Table) :
    (address ∈ sweepHostState subnet vms dirs ↔ address ∈ subnet.vmAddresses ∧
      (node.host.objectsAt (hostId address)).present = true ∧ ¬ vms.Holds address) ∧
    (address ∈ node.host.unheld subnet vms ↔ address ∈ sweepHostState subnet vms dirs) := by
  refine ⟨?_, hshow.mem_unheld⟩
  rw [mem_sweepHostState, ← hshow _ _ (parseHostId_hostId address)]
  constructor
  · rintro ⟨hvm, hfree, name, hname, hparse⟩
    obtain ⟨owner, howner, rfl⟩ := System.named_of_run hrun name ((hshow _ _ hparse).mp hname)
    rw [parseHostId_hostId, Option.some.injEq] at hparse
    cases subnet.eq_of_low16_eq (subnet.contains_of_mem howner) (subnet.contains_of_mem hvm) hparse
    exact ⟨hvm, hname, hfree⟩
  · rintro ⟨hvm, hname, hfree⟩
    exact ⟨hvm, hfree, _, hname, parseHostId_hostId address⟩

/-- The agent crashes while a VM runs: to the next one, whose table is empty, it is left over. -/
theorem sweep_finds_crashed_vm :
    ∃ node dirs, Lib.run (System.step .sample) .fresh
        (NodeEvent.boots 2 ++ NodeEvent.starts "web" 0 ++ [.crash]) = some node ∧
      dirs.Show node.host ∧ 0x0A4D0002#32 ∈ sweepHostState .sample ∅ dirs := by
  have hends : ((Lib.run (System.step .sample) .fresh
      (NodeEvent.boots 2 ++ NodeEvent.starts "web" 0 ++ [.crash])).any fun node =>
        (node.host.objectsAt (hostId 0x0A4D0002#32)).present) := by decide +kernel
  obtain ⟨node, hrun, hpresent⟩ := (Option.any_eq_true _ _).mp hends
  obtain ⟨dirs, hshow⟩ := HostDirs.exists_show node.host
  refine ⟨node, dirs, hrun, hshow, (sweep_exact_on_node hrun hshow ∅).1.mpr ⟨?_, hpresent, ?_⟩⟩
  · decide +kernel
  · simp [Table.holds_iff]

end

end Cirrocumulus.Node
