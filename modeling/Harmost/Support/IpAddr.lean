import Harmost.Support.FormUrlencoded
import Mathlib.Data.Vector.Basic

/-!
# IP addresses and their texts

The addresses of Rust's `std::net`, and the texts that its parsers accept.  A
reader takes what it can from the front of a text and hands back the rest; an
address is parsed when its reader leaves nothing.
-/

namespace Harmost.Support

abbrev Ipv4Addr := List.Vector UInt8 4

abbrev Ipv6Addr := List.Vector UInt8 16

inductive IpAddr where
  | v4 (octets : Ipv4Addr)
  | v6 (octets : Ipv6Addr)
  deriving DecidableEq

/-- `Ipv6Addr::to_ipv4_mapped`. -/
def Ipv6Addr.toIpv4Mapped (address : Ipv6Addr) : Option Ipv4Addr :=
  if address.toList.take 12 = List.replicate 10 0 ++ [0xff, 0xff] then
    some ⟨address.toList.drop 12, by simp⟩
  else
    none

/-- `char::to_digit`. -/
def toDigit (radix : ℕ) (c : Char) : Option ℕ :=
  (hexDigit c).filter (· < radix)

/-- Read a number of a few digits that fits the width. -/
def readNumber (radix maxDigits bits : ℕ) (allowZeroPrefix : Bool) (s : Str) :
    Option (ℕ × Str) :=
  let digits := s.takeWhile fun c => (toDigit radix c).isSome
  let n := digits.foldl (fun n c => n * radix + (toDigit radix c).getD 0) 0
  if maxDigits < digits.length then none
  else if digits.isEmpty then none
  else if !allowZeroPrefix && digits.head? = some '0' && 1 < digits.length then
    none
  else if n < 2 ^ bits then some (n, s.drop digits.length)
  else none

def readGivenChar (target : Char) : Str → Option Str
  | [] => none
  | c :: rest => if c = target then some rest else none

/-- Read with a separator in front, unless it is the first of its kind. -/
def readSeparator {α : Type*} (sep : Char) (first : Bool)
    (inner : Str → Option (α × Str)) (s : Str) : Option (α × Str) :=
  if first then inner s else (readGivenChar sep s).bind inner

/-! ## Addresses -/

def readOctet : Str → Option (ℕ × Str) :=
  readNumber 10 3 8 false

def readIpv4Addr (s : Str) : Option (Ipv4Addr × Str) := do
  let (a, s) ← readOctet s
  let (b, s) ← readSeparator '.' false readOctet s
  let (c, s) ← readSeparator '.' false readOctet s
  let (d, s) ← readSeparator '.' false readOctet s
  return (⟨[.ofNat a, .ofNat b, .ofNat c, .ofNat d], rfl⟩, s)

/-- The two 16-bit groups of an embedded IPv4 address. -/
def ipv4Groups (address : Ipv4Addr) : List ℕ :=
  let octet (i : ℕ) := (address.toList.getD i 0).toNat
  [octet 0 * 256 + octet 1, octet 2 * 256 + octet 3]

/-- Read groups of an IPv6 address into so many slots, and say whether the last
two were an embedded IPv4 address. -/
def readGroups : ℕ → Bool → Str → List ℕ × Bool × Str
  | 0, _, s => ([], false, s)
  | slots + 1, first, s =>
      let embedded :=
        if 0 < slots then readSeparator ':' first readIpv4Addr s else none
      match embedded with
      | some (address, s) => (ipv4Groups address, true, s)
      | none =>
          match readSeparator ':' first (readNumber 16 4 16 true) s with
          | some (group, s) =>
              let (groups, ipv4, s) := readGroups slots false s
              (group :: groups, ipv4, s)
          | none => ([], false, s)

def ofGroups (groups : List ℕ) : Ipv6Addr :=
  .ofFn fun i =>
    let group := groups.getD (i / 2) 0
    .ofNat (if i % 2 = 0 then group / 256 else group % 256)

def readIpv6Addr (s : Str) : Option (Ipv6Addr × Str) :=
  let (head, headIpv4, s) := readGroups 8 true s
  if head.length = 8 then some (ofGroups head, s)
  else if headIpv4 then none
  else do
    let s ← readGivenChar ':' s
    let s ← readGivenChar ':' s
    -- the gap stands for at least one group
    let (tail, _, s) := readGroups (8 - (head.length + 1)) true s
    let gap := List.replicate (8 - head.length - tail.length) 0
    return (ofGroups (head ++ gap ++ tail), s)

/-- What a reader reads when it leaves nothing. -/
def parseWith {α : Type*} (inner : Str → Option (α × Str)) (s : Str) :
    Option α :=
  match inner s with
  | some (a, []) => some a
  | _ => none

/-- `str::parse::<Ipv4Addr>`. -/
def Ipv4Addr.parse (s : Str) : Option Ipv4Addr :=
  if 15 < byteLen s then none else parseWith readIpv4Addr s

def readIpAddr (s : Str) : Option (IpAddr × Str) :=
  match readIpv4Addr s with
  | some (address, s) => some (.v4 address, s)
  | none => (readIpv6Addr s).map fun (address, s) => (.v6 address, s)

/-- `str::parse::<IpAddr>`. -/
def IpAddr.parse (s : Str) : Option IpAddr :=
  parseWith readIpAddr s

end Harmost.Support
