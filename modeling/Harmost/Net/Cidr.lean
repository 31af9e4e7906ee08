import Harmost.Net.Forwarded
import Harmost.Support.Bits

/-!
# Which addresses a block contains

A block contains the addresses that begin with its bits.  The source compares
whole bytes and then one masked byte, with slices, an index and a shift that
would panic out of their range; no block lets them.
-/

namespace Harmost.Net

open Harmost.Support

/-! ## Bits of addresses -/

def IpAddr.isIpv4 : IpAddr → Bool
  | .v4 _ => true
  | .v6 _ => false

def IpAddr.octets : IpAddr → List UInt8
  | .v4 octets => octets.toList
  | .v6 octets => octets.toList

/-- The first bits of an address. -/
def IpAddr.firstBits (address : IpAddr) (n : ℕ) : List Bool :=
  (bits (IpAddr.octets address)).take n

theorem IpAddr.maxPrefixLen_eq (address : IpAddr) :
    IpAddr.maxPrefixLen address = 8 * (IpAddr.octets address).length := by
  cases address with
  | v4 octets => exact congrArg (8 * ·) octets.toList_length.symm
  | v6 octets => exact congrArg (8 * ·) octets.toList_length.symm

theorem length_octets {n : ℕ} (a b : List.Vector UInt8 n) :
    a.toList.length = b.toList.length :=
  a.toList_length.trans b.toList_length.symm

/-- The byte that a prefix length ends in is there. -/
theorem div_lt_of_mod_ne_zero {n length : ℕ} (hn : n ≤ 8 * length)
    (hleftover : n % 8 ≠ 0) : n / 8 < length := by
  omega

theorem prefixEq_iff {a b : List UInt8} (hlength : a.length = b.length)
    {n : ℕ} (hn : n ≤ 8 * a.length) :
    prefixEq a b n = true ↔ (bits a).take n = (bits b).take n := by
  have hwhole : n / 8 ≤ a.length := Nat.div_le_of_le_mul hn
  have htake := take_bits_eq_iff hlength hwhole (n % 8)
  rw [Nat.div_add_mod] at htake
  rw [htake, prefixEq]
  by_cases hbytes : a.take (n / 8) = b.take (n / 8)
  · rw [if_neg (not_not.mpr hbytes)]
    by_cases hleftover : n % 8 = 0
    · rw [if_pos hleftover, hleftover]
      exact iff_of_true rfl ⟨hbytes, rfl⟩
    · have hlt := div_lt_of_mod_ne_zero hn hleftover
      have hmod : n % 8 < 8 := Nat.mod_lt n (by decide)
      rw [if_neg hleftover, beq_iff_eq, take_bits_drop hlt hmod.le,
        take_bits_drop (hlength ▸ hlt) hmod.le, and_iff_right hbytes]
      exact and_leadingOnes_eq_iff hmod (Nat.pos_of_ne_zero hleftover)
  · rw [if_pos hbytes]
    exact iff_of_false Bool.false_ne_true fun h => hbytes h.1

/-! ## Panics -/

/-- `a[..n]`, which panics past the end. -/
def sliceTo? (a : List UInt8) (n : ℕ) : Option (List UInt8) :=
  if n ≤ a.length then some (a.take n) else none

/-- `<<` of a byte, which panics at its width. -/
def shiftLeft? (byte : UInt8) (n : ℕ) : Option UInt8 :=
  if n < 8 then some (byte <<< UInt8.ofNat n) else none

/-- `prefixEq` with everything that can panic in it. -/
def prefixEq? (a b : List UInt8) (prefixLen : ℕ) : Option Bool := do
  let whole := prefixLen / 8
  if (← sliceTo? a whole) ≠ (← sliceTo? b whole) then return false
  let leftover := prefixLen % 8
  if leftover = 0 then return true
  let mask ← shiftLeft? 0xff (8 - leftover)
  return (← a[whole]?) &&& mask == (← b[whole]?) &&& mask

def Cidr.contains? (block : Cidr) (address : IpAddr) : Option Bool :=
  match block.network, address with
  | .v4 network, .v4 address =>
      prefixEq? network.toList address.toList block.prefixLen
  | .v6 network, .v6 address =>
      prefixEq? network.toList address.toList block.prefixLen
  | .v4 network, .v6 address =>
      match Ipv6Addr.toIpv4Mapped address with
      | some mapped => prefixEq? network.toList mapped.toList block.prefixLen
      | none => some false
  | .v6 _, .v4 _ => some false

theorem prefixEq?_eq {a b : List UInt8} (hlength : a.length = b.length)
    {n : ℕ} (hn : n ≤ 8 * a.length) :
    prefixEq? a b n = some (prefixEq a b n) := by
  have hwhole : n / 8 ≤ a.length := Nat.div_le_of_le_mul hn
  have hsliceA : sliceTo? a (n / 8) = some (a.take (n / 8)) := if_pos hwhole
  have hsliceB : sliceTo? b (n / 8) = some (b.take (n / 8)) :=
    if_pos (hlength ▸ hwhole)
  simp only [prefixEq?, prefixEq, hsliceA, hsliceB, Option.bind_eq_bind,
    Option.bind_some]
  by_cases hbytes : a.take (n / 8) ≠ b.take (n / 8)
  · rw [if_pos hbytes, if_pos hbytes]
    rfl
  · rw [if_neg hbytes, if_neg hbytes]
    by_cases hleftover : n % 8 = 0
    · rw [if_pos hleftover, if_pos hleftover]
      rfl
    · have hlt := div_lt_of_mod_ne_zero hn hleftover
      have hshift : 8 - n % 8 < 8 :=
        Nat.sub_lt (by decide) (Nat.pos_of_ne_zero hleftover)
      rw [if_neg hleftover, if_neg hleftover, shiftLeft?, if_pos hshift,
        List.getD_eq_getElem?_getD, List.getD_eq_getElem?_getD,
        List.getElem?_eq_getElem hlt,
        List.getElem?_eq_getElem (hlength ▸ hlt)]
      rfl

/-! ## Containment -/

/-- An IPv4-mapped address as the IPv4 address that it stands for. -/
def IpAddr.unmapped : IpAddr → IpAddr
  | .v4 octets => .v4 octets
  | .v6 octets =>
      match Ipv6Addr.toIpv4Mapped octets with
      | some mapped => .v4 mapped
      | none => .v6 octets

/-- The address that a block compares with. -/
def Cidr.seen (block : Cidr) (address : IpAddr) : IpAddr :=
  if IpAddr.isIpv4 block.network then IpAddr.unmapped address else address

theorem Cidr.contains_iff (block : Cidr) (address : IpAddr) :
    block.contains address = true ↔
      IpAddr.isIpv4 (block.seen address) = IpAddr.isIpv4 block.network ∧
        IpAddr.firstBits (block.seen address) block.prefixLen =
          IpAddr.firstBits block.network block.prefixLen := by
  obtain ⟨network, n, hn⟩ := block
  rw [IpAddr.maxPrefixLen_eq] at hn
  cases network with
  | v4 network =>
      have hsame : ∀ octets : Ipv4Addr,
          prefixEq network.toList octets.toList n = true ↔
            (bits octets.toList).take n = (bits network.toList).take n :=
        fun octets =>
          (prefixEq_iff (length_octets network octets) hn).trans eq_comm
      cases address with
      | v4 octets => exact (hsame octets).trans (and_iff_right rfl).symm
      | v6 octets =>
          simp only [Cidr.contains, Cidr.seen, IpAddr.isIpv4, if_true,
            IpAddr.unmapped]
          cases Ipv6Addr.toIpv4Mapped octets with
          | some mapped => exact (hsame mapped).trans (and_iff_right rfl).symm
          | none =>
              exact iff_of_false Bool.false_ne_true
                fun h => Bool.false_ne_true h.1
  | v6 network =>
      cases address with
      | v4 octets =>
          exact iff_of_false Bool.false_ne_true
            fun h => Bool.false_ne_true h.1.symm
      | v6 octets =>
          have hsame := prefixEq_iff (length_octets network octets) hn
          exact (hsame.trans eq_comm).trans (and_iff_right rfl).symm

theorem Cidr.contains?_eq (block : Cidr) (address : IpAddr) :
    block.contains? address = some (block.contains address) := by
  obtain ⟨network, n, hn⟩ := block
  rw [IpAddr.maxPrefixLen_eq] at hn
  cases network with
  | v4 network =>
      cases address with
      | v4 octets => exact prefixEq?_eq (length_octets network octets) hn
      | v6 octets =>
          simp only [Cidr.contains?, Cidr.contains]
          cases Ipv6Addr.toIpv4Mapped octets with
          | some mapped => exact prefixEq?_eq (length_octets network mapped) hn
          | none => rfl
  | v6 network =>
      cases address with
      | v4 octets => rfl
      | v6 octets => exact prefixEq?_eq (length_octets network octets) hn

/-- The host bits of a block do not matter. -/
theorem Cidr.contains_congr {block other : Cidr}
    (hfamily : IpAddr.isIpv4 other.network = IpAddr.isIpv4 block.network)
    (hlen : other.prefixLen = block.prefixLen)
    (hbits : IpAddr.firstBits other.network block.prefixLen =
      IpAddr.firstBits block.network block.prefixLen) (address : IpAddr) :
    other.contains address = block.contains address := by
  have hseen : other.seen address = block.seen address := by
    rw [seen, seen, hfamily]
  rw [Bool.eq_iff_iff, contains_iff, contains_iff, hseen, hfamily, hlen, hbits]

/-- A block that was parsed contains what begins with its bits, in an address
of its family; nothing panics on the way to the answer. -/
theorem Cidr.contains_of_parse (raw : Str) :
    ∀ block, Cidr.parse raw = .ok block → ∀ address,
      (block.contains address = true ↔
        IpAddr.isIpv4 (block.seen address) = IpAddr.isIpv4 block.network ∧
          IpAddr.firstBits (block.seen address) block.prefixLen =
            IpAddr.firstBits block.network block.prefixLen) ∧
      (∀ other : Cidr,
        IpAddr.isIpv4 other.network = IpAddr.isIpv4 block.network →
        other.prefixLen = block.prefixLen →
        IpAddr.firstBits other.network block.prefixLen =
          IpAddr.firstBits block.network block.prefixLen →
        other.contains address = block.contains address) ∧
      block.contains? address = some (block.contains address) := by
  -- what the parser checks is part of a block
  intro block _ address
  exact ⟨contains_iff block address,
    fun _ hfamily hlen hbits => contains_congr hfamily hlen hbits address,
    contains?_eq block address⟩

/-- A sloppy block, and a mapped address in it. -/
theorem Cidr.contains_of_parse_sloppy :
    ∃ block, Cidr.parse "10.1.2.3/12".toList = .ok block ∧
      block.contains (.v6 ⟨List.replicate 10 0 ++
        [0xff, 0xff, 10, 15, 0, 1], rfl⟩) = true := by
  have hparse : Cidr.parse "10.1.2.3/12".toList =
      .ok ⟨.v4 ⟨[10, 1, 2, 3], rfl⟩, 12, Nat.le_of_ble_eq_true rfl⟩ := by
    decide
  exact ⟨_, hparse,
    (contains_of_parse _ _ hparse _).1.mpr ⟨by decide, by decide⟩⟩

end Harmost.Net
