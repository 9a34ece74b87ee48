/-
# The Node subnet

A Node subnet is an aligned block of addresses with 1 to 2^16 - 3 VM addresses in
it. Everything a VM owns on the host is named by the low 16 bits of its VM address
only, and so is the uid its VMM runs as. Within one subnet these 16 bits still tell
all VM addresses apart, because a subnet never crosses a boundary of 2^16
addresses.
-/

import Cirrocumulus.Lib.Text
import Mathlib.Data.Nat.Bitwise
import Mathlib.Tactic.Ring
import Mathlib.Tactic.IntervalCases

namespace Cirrocumulus.Node

open List Option

variable {n : Nat}

/-- An `Ipv4Addr`, as its `u32`. -/
abbrev Ipv4Addr := BitVec 32

variable {address a b : Ipv4Addr}

/-- The `Debug` form of a string, every character above U+007F taken as printable. -/
def quoted (s : Str) : Str :=
  let escaped := s.flatMap fun c =>
    if c = '"' then ['\\', '"']
    else if c = '\\' then ['\\', '\\']
    else if c = '\n' then ['\\', 'n']
    else if c = '\r' then ['\\', 'r']
    else if c = '\t' then ['\\', 't']
    else if c = '\x00' then ['\\', '0']
    else if c.toNat < 32 ∨ c.toNat = 127 then
      "\\u\x7b" ++ Nat.toDigits 16 c.toNat ++ "\x7d"
    else [c]
  ['"'] ++ escaped ++ ['"']

/-! ## Parsing -/

/-- One octet of an address: one to three digits without a leading zero. -/
def parseOctet (s : Str) : Option Nat :=
  if s = [] ∨ 3 < s.length ∨ (s.head? = some '0' ∧ 1 < s.length) then none
  else (parseDigits 255 0 s).toOption

/-- `Ipv4Addr::from_str`. -/
def parseIpv4 (s : Str) : Except Str Ipv4Addr :=
  match (s.splitOn '.').map parseOctet with
  | [some a, some b, some c, some d] =>
    .ok (BitVec.ofNat 32 (a * 2 ^ 24 + b * 2 ^ 16 + c * 2 ^ 8 + d))
  | _ => .error "invalid IPv4 address syntax"

/-! ## Subnets -/

/-- `u32::MAX << (32 - prefix_len)`. -/
def maskOf (prefixLen : Nat) : BitVec 32 := BitVec.allOnes 32 <<< (32 - prefixLen)

/-- A Node subnet. Its network address is the first of a block of
`2 ^ (32 - prefixLen)` addresses. -/
structure Subnet where
  network : Ipv4Addr
  prefixLen : Nat
  len_le : 16 ≤ prefixLen ∧ prefixLen ≤ 30
  aligned : network.toNat % 2 ^ (32 - prefixLen) = 0

/-- An address starts a block just if the mask leaves it as it is. -/
theorem and_maskOf_eq_iff {prefixLen} :
    address &&& maskOf prefixLen = address ↔ address.toNat % 2 ^ (32 - prefixLen) = 0 := by
  have hbits : address.toNat % 2 ^ (32 - prefixLen) = 0 ↔
      ∀ i < 32 - prefixLen, address.getLsbD i = false := by
    simp [Nat.eq_iff_testBit_eq, Nat.testBit_mod_two_pow, BitVec.getLsbD]
  rw [hbits, BitVec.eq_of_getLsbD_eq_iff]
  simp only [BitVec.getLsbD_and, maskOf, BitVec.getLsbD_shiftLeft, BitVec.getLsbD_allOnes]
  grind

/-- `Subnet::from_str`. -/
def Subnet.fromStr (s : Str) : Except Str Subnet :=
  match splitOnce '/' s with
  | none => .error (quoted s ++ " is not a CIDR like 10.77.0.0/24")
  | some (addr, len) =>
    match parseIpv4 addr with
    | .error e => .error (quoted s ++ ": " ++ e)
    | .ok addr =>
      match parseUnsigned 8 len with
      | .error e => .error (quoted s ++ ": " ++ e)
      | .ok prefixLen =>
        if h : 16 ≤ prefixLen ∧ prefixLen ≤ 30 then
          .ok ⟨addr &&& maskOf prefixLen, prefixLen, h,
            and_maskOf_eq_iff.mp (by rw [BitVec.and_assoc, BitVec.and_self])⟩
        else .error (quoted s ++ ": prefix length must be between 16 and 30")

/-- The subnet `10.77.0.0/24`, the source's own example. -/
def Subnet.sample : Subnet := ⟨0x0A4D0000#32, 24, by decide, by decide⟩

namespace Subnet

/-- `Subnet::node_address`. -/
def nodeAddress (subnet : Subnet) : Ipv4Addr := subnet.network + 1

/-- The last address of the block. -/
def broadcast (subnet : Subnet) : Ipv4Addr :=
  subnet.network ||| (BitVec.allOnes 32 >>> subnet.prefixLen)

/-- `Subnet::vm_addresses`: every address a VM may hold, lowest first. -/
def vmAddresses (subnet : Subnet) : List Ipv4Addr :=
  (List.range' (subnet.network + 2).toNat
    (subnet.broadcast.toNat - (subnet.network + 2).toNat)).map (BitVec.ofNat 32)

/-- `Subnet::vm_address_with_low16`. -/
def vmAddressWithLow16 (subnet : Subnet) (low : BitVec 16) : Option Ipv4Addr :=
  let address := subnet.network &&& 0xFFFF0000#32 ||| low.setWidth 32
  if subnet.network + 2 ≤ address ∧ address < subnet.broadcast then some address else none

variable (subnet : Subnet)

/-- The number of addresses of the block. -/
def size : Nat := 2 ^ (32 - subnet.prefixLen)

theorem size_ge : 4 ≤ subnet.size := by
  have := subnet.len_le
  calc 4 = 2 ^ 2 := rfl
    _ ≤ 2 ^ (32 - subnet.prefixLen) := Nat.pow_le_pow_right (by decide) (by omega)

theorem size_dvd : subnet.size ∣ 2 ^ 16 := by
  have := subnet.len_le
  exact Nat.pow_dvd_pow 2 (by omega)

/-- A block that starts below `2 ^ 32` ends there at the latest. -/
theorem network_add_size_le : subnet.network.toNat + subnet.size ≤ 2 ^ 32 := by
  obtain ⟨blocks, hblocks⟩ := Nat.dvd_of_mod_eq_zero subnet.aligned
  obtain ⟨count, hcount⟩ : subnet.size ∣ 2 ^ 32 := Nat.pow_dvd_pow 2 (by omega)
  have hlt := subnet.network.isLt
  change subnet.network.toNat = subnet.size * blocks at hblocks
  rw [hblocks, hcount] at hlt
  have hblock : blocks < count := Nat.lt_of_mul_lt_mul_left hlt
  calc subnet.network.toNat + subnet.size = subnet.size * (blocks + 1) := by rw [hblocks]; ring
    _ ≤ subnet.size * count := Nat.mul_le_mul_left _ hblock
    _ = 2 ^ 32 := hcount.symm

theorem toNat_broadcast : subnet.broadcast.toNat = subnet.network.toNat + subnet.size - 1 := by
  have hlen := subnet.len_le
  have hpos : 0 < subnet.size := Nat.two_pow_pos _
  have hones : (BitVec.allOnes 32 >>> subnet.prefixLen).toNat = subnet.size - 1 := by
    rw [BitVec.toNat_ushiftRight, BitVec.toNat_allOnes, Nat.shiftRight_eq_div_pow]
    have hsplit : 2 ^ 32 = 2 ^ subnet.prefixLen * subnet.size := by
      rw [size, ← pow_add]
      congr 1
      omega
    have hprod : 0 < 2 ^ subnet.prefixLen * subnet.size := hsplit ▸ Nat.two_pow_pos 32
    rw [hsplit, Nat.mul_sub_div 0 _ _ hprod, Nat.zero_div]
  obtain ⟨blocks, hblocks⟩ := Nat.dvd_of_mod_eq_zero subnet.aligned
  rw [broadcast, BitVec.toNat_or, hones, hblocks]
  rw [← Nat.two_pow_add_eq_or_of_lt (by change subnet.size - 1 < subnet.size; omega)]
  change _ = subnet.size * blocks + subnet.size - 1
  change subnet.size * blocks + (subnet.size - 1) = _
  omega

theorem toNat_network_add (hn : n < 4) :
    (subnet.network + BitVec.ofNat 32 n).toNat = subnet.network.toNat + n := by
  have hsize := subnet.size_ge
  have hend := subnet.network_add_size_le
  rw [BitVec.toNat_add, BitVec.toNat_ofNat, Nat.mod_eq_of_lt (show n < 2 ^ 32 by omega),
    Nat.mod_eq_of_lt (by omega)]

theorem toNat_nodeAddress : subnet.nodeAddress.toNat = subnet.network.toNat + 1 :=
  subnet.toNat_network_add (by decide)

theorem toNat_network_add_two : (subnet.network + 2).toNat = subnet.network.toNat + 2 :=
  subnet.toNat_network_add (by decide)

/-- A VM address lies strictly between the Node address and the broadcast address. -/
theorem mem_vmAddresses :
    address ∈ subnet.vmAddresses ↔
      subnet.nodeAddress.toNat < address.toNat ∧ address.toNat < subnet.broadcast.toNat := by
  have hsize := subnet.size_ge
  have hend := subnet.network_add_size_le
  have hnode := subnet.toNat_nodeAddress
  have hfirst := subnet.toNat_network_add_two
  have hlast := subnet.toNat_broadcast
  rw [vmAddresses, List.mem_map, hnode, hfirst]
  constructor
  · rintro ⟨n, hn, rfl⟩
    rw [mem_range'_1] at hn
    rw [BitVec.toNat_ofNat, Nat.mod_eq_of_lt (by omega)]
    omega
  · rintro ⟨hlow, hhigh⟩
    refine ⟨address.toNat, ?_, BitVec.eq_of_toNat_eq (by simp)⟩
    rw [mem_range'_1]
    omega

/-- An address of the block. -/
def Contains (address : Ipv4Addr) : Prop :=
  subnet.network.toNat ≤ address.toNat ∧ address.toNat ≤ subnet.broadcast.toNat

theorem contains_of_mem (h : address ∈ subnet.vmAddresses) : subnet.Contains address := by
  obtain ⟨hlow, hhigh⟩ := subnet.mem_vmAddresses.mp h
  have hnode := subnet.toNat_nodeAddress
  constructor <;> omega

/-- All addresses of a subnet share their high 16 bits. -/
theorem div_eq_of_contains (h : subnet.Contains address) :
    address.toNat / 2 ^ 16 = subnet.network.toNat / 2 ^ 16 := by
  obtain ⟨hlow, hhigh⟩ := h
  rw [subnet.toNat_broadcast] at hhigh
  obtain ⟨blocks, hblocks⟩ := Nat.dvd_of_mod_eq_zero subnet.aligned
  obtain ⟨count, hcount⟩ := subnet.size_dvd
  change subnet.network.toNat = subnet.size * blocks at hblocks
  have hcount0 : 0 < count := by
    rcases Nat.eq_zero_or_pos count with rfl | hpos
    · simp at hcount
    · exact hpos
  have hsize : 0 < subnet.size := Nat.two_pow_pos _
  -- Both quotients are the number of whole blocks, divided by the blocks in `2 ^ 16`.
  have hdiv : address.toNat / subnet.size = blocks := by
    refine Nat.div_eq_of_lt_le ?_ ?_
    · rw [mul_comm]
      omega
    · rw [Nat.add_mul, one_mul, mul_comm]
      omega
  rw [hcount, ← Nat.div_div_eq_div_mul, ← Nat.div_div_eq_div_mul, hdiv, hblocks,
    Nat.mul_div_cancel_left _ hsize]

end Subnet

/-! ## Names of host objects -/

/-- The low 16 bits of an address. -/
def low16 (address : Ipv4Addr) : BitVec 16 := address.setWidth 16

theorem toNat_low16 (address : Ipv4Addr) : (low16 address).toNat = address.toNat % 2 ^ 16 :=
  BitVec.toNat_setWidth 16 address

/-- The low 16 bits tell the addresses of one subnet apart. -/
theorem Subnet.eq_of_low16_eq (subnet : Subnet) (ha : subnet.Contains a)
    (hb : subnet.Contains b) (h : low16 a = low16 b) : a = b := by
  have hlow := congrArg BitVec.toNat h
  rw [toNat_low16, toNat_low16] at hlow
  have hhigh : a.toNat / 2 ^ 16 = b.toNat / 2 ^ 16 := by
    rw [subnet.div_eq_of_contains ha, subnet.div_eq_of_contains hb]
  refine BitVec.eq_of_toNat_eq ?_
  rw [← Nat.div_add_mod a.toNat (2 ^ 16), hhigh, hlow, Nat.div_add_mod]

/-- A byte as two hexadecimal digits. -/
def hexByte (n : Nat) : Str := [Nat.digitChar (n / 16), Nat.digitChar (n % 16)]

/-- `host_id`: the name of every host object of the VM at an address. -/
def hostId (address : Ipv4Addr) : Str :=
  "cirro-" ++ hexByte (address.toNat / 256 % 256) ++ hexByte (address.toNat % 256)

/-- The uid and gid that Firecracker runs as. -/
def vmUid (address : Ipv4Addr) : Nat := 900000 + (low16 address).toNat

/-- `char::to_digit(16)`. -/
def hexVal (c : Char) : Option Nat :=
  if c.isDigit then some (c.toNat - '0'.toNat)
  else if 'a' ≤ c ∧ c ≤ 'f' then some (c.toNat - 'a'.toNat + 10)
  else if 'A' ≤ c ∧ c ≤ 'F' then some (c.toNat - 'A'.toNat + 10)
  else none

def hexDigits (acc : Nat) : Str → Option Nat
  | [] => some acc
  | c :: rest => (hexVal c).bind fun value => hexDigits (acc * 16 + value) rest

/-- `u16::from_str_radix` with radix 16 on four chars, which takes a leading plus. -/
def parseHex4 (hex : Str) : Option (BitVec 16) :=
  if hex.length ≠ 4 then none
  else
    let digits := if hex.head? = some '+' then hex.drop 1 else hex
    (hexDigits 0 digits).map (BitVec.ofNat 16)

/-- `parse_host_id`, the inverse of `host_id`. -/
def parseHostId (name : Str) : Option (BitVec 16) :=
  (stripPrefix "cirro-" name).bind parseHex4

theorem hexVal_digitChar (h : n < 16) : hexVal (Nat.digitChar n) = some n := by
  interval_cases n <;> rfl

theorem hexDigits_hexByte {acc} (h : n < 256) (rest : Str) :
    hexDigits acc (hexByte n ++ rest) = hexDigits (acc * 256 + n) rest := by
  have hhigh : hexVal (Nat.digitChar (n / 16)) = some (n / 16) := hexVal_digitChar (by omega)
  have hlow : hexVal (Nat.digitChar (n % 16)) = some (n % 16) := hexVal_digitChar (by omega)
  simp only [hexByte, cons_append, nil_append, hexDigits, hhigh, hlow, bind_some]
  congr 1
  omega

theorem digitChar_ne_plus (h : n < 16) : Nat.digitChar n ≠ '+' := by
  interval_cases n <;> decide

/-- Two bytes in hexadecimal are read back as the number they make. -/
theorem parseHex4_hexByte {high low} (hhigh : high < 256) (hlow : low < 256) :
    parseHex4 (hexByte high ++ hexByte low) = some (BitVec.ofNat 16 (high * 256 + low)) := by
  have hplus : ¬ (hexByte high ++ hexByte low).head? = some '+' := by
    rw [hexByte, cons_append, head?_cons, Option.some.injEq]
    exact digitChar_ne_plus (by omega)
  have hlen : ¬ (hexByte high ++ hexByte low).length ≠ 4 := fun h => h rfl
  have hdigits : hexDigits 0 (hexByte high ++ hexByte low) = some (high * 256 + low) := by
    rw [hexDigits_hexByte hhigh, ← append_nil (hexByte low), hexDigits_hexByte hlow,
      Nat.zero_mul, Nat.zero_add]
    rfl
  rw [parseHex4, if_neg hlen]
  dsimp only
  rw [if_neg hplus, hdigits, map_some]

/-- Parsing a name gives back the low 16 bits it was made from. -/
theorem parseHostId_hostId (address : Ipv4Addr) :
    parseHostId (hostId address) = some (low16 address) := by
  have hstrip : stripPrefix "cirro-" (hostId address) =
      some (hexByte (address.toNat / 256 % 256) ++ hexByte (address.toNat % 256)) :=
    stripPrefix_eq_some.mpr (append_assoc _ _ _)
  rw [parseHostId, hstrip, bind_some, parseHex4_hexByte (by omega) (by omega),
    Option.some.injEq]
  refine BitVec.eq_of_toNat_eq ?_
  rw [BitVec.toNat_ofNat, toNat_low16]
  omega

theorem low16_eq_of_hostId_eq (h : hostId a = hostId b) : low16 a = low16 b := by
  have hparse := congrArg parseHostId h
  rw [parseHostId_hostId, parseHostId_hostId] at hparse
  exact Option.some.inj hparse

/-- Two VM addresses of one subnet have different host objects and different uids. -/
theorem Subnet.names_ne (subnet : Subnet) (ha : a ∈ subnet.vmAddresses)
    (hb : b ∈ subnet.vmAddresses) (hne : a ≠ b) : hostId a ≠ hostId b ∧ vmUid a ≠ vmUid b := by
  have hlow : low16 a ≠ low16 b := fun h =>
    hne (subnet.eq_of_low16_eq (subnet.contains_of_mem ha) (subnet.contains_of_mem hb) h)
  constructor
  · exact fun h => hlow (low16_eq_of_hostId_eq h)
  · intro h
    refine hlow (BitVec.eq_of_toNat_eq ?_)
    unfold vmUid at h
    omega

/-! ## Addresses by their low bits -/

namespace Subnet

variable (subnet : Subnet)

/-- An address found by its low 16 bits is a VM address. -/
theorem mem_of_vmAddressWithLow16 {low}
    (h : subnet.vmAddressWithLow16 low = some address) : address ∈ subnet.vmAddresses := by
  unfold vmAddressWithLow16 at h
  dsimp only at h
  split at h
  · rename_i hrange
    cases h
    rw [BitVec.le_def, BitVec.lt_def] at hrange
    have hnode := subnet.toNat_nodeAddress
    have hfirst := subnet.toNat_network_add_two
    rw [mem_vmAddresses]
    omega
  · cases h

/-- Every VM address is found by its low 16 bits. -/
theorem vmAddressWithLow16_low16 (h : address ∈ subnet.vmAddresses) :
    subnet.vmAddressWithLow16 (low16 address) = some address := by
  have hhigh : address >>> 16 = subnet.network >>> 16 := by
    apply BitVec.eq_of_toNat_eq
    simp only [BitVec.toNat_ushiftRight, Nat.shiftRight_eq_div_pow]
    exact subnet.div_eq_of_contains (subnet.contains_of_mem h)
  have hmask : ∀ i : Fin 32, (0xFFFF0000#32).getLsbD i = decide (16 ≤ i.val) := by decide
  have hjoin : subnet.network &&& 0xFFFF0000#32 ||| (low16 address).setWidth 32 = address := by
    apply BitVec.eq_of_getLsbD_eq
    intro i hi
    have hbit := congrArg (fun word => word.getLsbD (i - 16)) hhigh
    simp only [BitVec.getLsbD_ushiftRight] at hbit
    by_cases hlow : i < 16
    · simp only [BitVec.getLsbD_or, BitVec.getLsbD_and, hmask ⟨i, hi⟩]
      simp [low16, hlow, hi, Nat.not_le.mpr hlow]
    · have hsplit : 16 + (i - 16) = i := by omega
      rw [hsplit] at hbit
      simp [low16, hmask ⟨i, hi⟩, hbit, Nat.le_of_not_lt hlow]
  obtain ⟨hlow, hlast⟩ := subnet.mem_vmAddresses.mp h
  unfold vmAddressWithLow16
  dsimp only
  rw [hjoin, if_pos]
  rw [BitVec.le_def, BitVec.lt_def]
  have hnode := subnet.toNat_nodeAddress
  have hfirst := subnet.toNat_network_add_two
  omega

end Subnet

end Cirrocumulus.Node
