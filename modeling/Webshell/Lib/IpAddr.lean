import Webshell.Lib.Text

/-!
# IP addresses

How an IP address and a socket address are read from a text. Readers take the start of a text; one
that fails leaves the text as it was.

## Main definitions

- `Net.Ipv4Addr`, `Net.Ipv6Addr`, `Net.IpAddr`, `Net.SocketAddr`
- `Net.parseIpAddr`, `Net.parseSocketAddr`: the address that a whole text writes
- `Net.IpAddr.isLoopback`, `Net.Ipv6Addr.toIpv4Mapped`
-/

namespace Net

open Text

structure Ipv4Addr where
  a : UInt8
  b : UInt8
  c : UInt8
  d : UInt8
deriving DecidableEq

/-- Eight groups of two bytes. -/
structure Ipv6Addr where
  groups : List UInt16
  length_groups : groups.length = 8
deriving DecidableEq

inductive IpAddr
  | v4 (addr : Ipv4Addr)
  | v6 (addr : Ipv6Addr)
deriving DecidableEq

structure SocketAddr where
  ip : IpAddr
  port : ℕ
deriving DecidableEq

/-- The address as the last two groups of another. -/
def Ipv4Addr.groups (addr : Ipv4Addr) : List UInt16 :=
  [addr.a.toUInt16 <<< 8 ||| addr.b.toUInt16, addr.c.toUInt16 <<< 8 ||| addr.d.toUInt16]

def Ipv4Addr.isLoopback (addr : Ipv4Addr) : Bool := addr.a = 127

def Ipv6Addr.isLoopback (addr : Ipv6Addr) : Bool := addr.groups = [0, 0, 0, 0, 0, 0, 0, 1]

/-- The address `a.b.c.d` that `::ffff:a.b.c.d` maps. -/
def Ipv6Addr.toIpv4Mapped (addr : Ipv6Addr) : Option Ipv4Addr :=
  match addr.groups with
  | [0, 0, 0, 0, 0, 0xffff, ab, cd] =>
    some ⟨(ab >>> 8).toUInt8, ab.toUInt8, (cd >>> 8).toUInt8, cd.toUInt8⟩
  | _ => none

def IpAddr.isLoopback : IpAddr → Bool
  | .v4 addr => addr.isLoopback
  | .v6 addr => addr.isLoopback

/-! ## Readers -/

/-- Reads the start of a text. -/
abbrev Reader := StateT Text Option

def readGivenChar (c : Char) : Reader Unit := fun t =>
  if t.head? = some c then some ((), t.tail) else none

/-- A separator stands before every element but the first. -/
def readSeparator {α : Type} (separator : Char) (index : ℕ) (inner : Reader α) : Reader α := do
  if 0 < index then readGivenChar separator
  inner

def toDigit (radix : ℕ) (c : Char) : Option ℕ :=
  let code := c.toNat
  let digit :=
    if isDigit c then code - 0x30
    else if 0x41 ≤ code ∧ code ≤ 0x5a then code - 0x37
    else if 0x61 ≤ code ∧ code ≤ 0x7a then code - 0x57
    else radix
  if digit < radix then some digit else none

/-- A number of `bits` bits, as long as its digits go on. -/
def readNumber (radix : ℕ) (maxDigits : Option ℕ) (allowZeroPrefix : Bool) (bits : ℕ) :
    Reader ℕ := fun t =>
  let digits := t.takeWhile fun c => (toDigit radix c).isSome
  let result := (digits.filterMap (toDigit radix)).foldl (fun n digit => n * radix + digit) 0
  if digits.isEmpty || maxDigits.any (· < digits.length) then none
  else if !allowZeroPrefix && digits.head? = some '0' && 1 < digits.length then none
  else if result < 2 ^ bits then some (result, t.drop digits.length)
  else none

def readOctet (index : ℕ) : Reader UInt8 := do
  let octet ← readSeparator '.' index (readNumber 10 (some 3) false 8)
  return UInt8.ofNat octet

def readIpv4Addr : Reader Ipv4Addr := do
  let a ← readOctet 0
  let b ← readOctet 1
  let c ← readOctet 2
  let d ← readOctet 3
  return ⟨a, b, c, d⟩

/-- The groups up to where they end, at most `room` of them, and whether the last two were written
as an IPv4 address, for which there must be room. -/
def readGroups : (room index : ℕ) → Text → List UInt16 × Bool × Text
  | 0, _, t => ([], false, t)
  | room + 1, index, t =>
    match if room = 0 then none else readSeparator ':' index readIpv4Addr t with
    | some (addr, t) => (addr.groups, true, t)
    | none =>
      match readSeparator ':' index (readNumber 16 (some 4) true 16) t with
      | some (group, t) =>
        let (groups, endsV4, t) := readGroups room (index + 1) t
        (UInt16.ofNat group :: groups, endsV4, t)
      | none => ([], false, t)

theorem length_readGroups_le (room index : ℕ) (t : Text) :
    (readGroups room index t).1.length ≤ room := by
  induction room generalizing index t with
  | zero => exact le_rfl
  | succ room ih =>
    rw [readGroups]
    split
    · next addr t' hv4 =>
      have hroom : room ≠ 0 := by
        rintro rfl
        cases hv4
      change 2 ≤ room + 1
      omega
    · split
      · next group t' _ => exact Nat.succ_le_succ (ih (index + 1) t')
      · exact Nat.zero_le _

/-- All eight groups, or a `::` that stands for at least one. -/
def readIpv6Addr : Reader Ipv6Addr := fun t =>
  let head := readGroups 8 0 t
  if hfull : head.1.length = 8 then some (⟨head.1, hfull⟩, head.2.2)
  else if head.2.1 then none
  else
    match (do readGivenChar ':'; readGivenChar ':' : Reader Unit) head.2.2 with
    | none => none
    | some (_, t) =>
      let tail := readGroups (8 - (head.1.length + 1)) 0 t
      some (⟨head.1 ++ List.replicate (8 - tail.1.length - head.1.length) 0 ++ tail.1, by
        have hhead : head.1.length ≤ 8 := length_readGroups_le 8 0 _
        have htail : tail.1.length ≤ 8 - (head.1.length + 1) := length_readGroups_le _ 0 t
        simp only [List.length_append, List.length_replicate]
        omega⟩, tail.2.2)

def readIpAddr : Reader IpAddr :=
  IpAddr.v4 <$> readIpv4Addr <|> IpAddr.v6 <$> readIpv6Addr

def readPort : Reader ℕ := do
  readGivenChar ':'
  readNumber 10 none true 16

def readScopeId : Reader ℕ := do
  readGivenChar '%'
  readNumber 10 none true 32

def readSocketAddrV4 : Reader SocketAddr := do
  let addr ← readIpv4Addr
  let port ← readPort
  return ⟨.v4 addr, port⟩

def readSocketAddrV6 : Reader SocketAddr := do
  readGivenChar '['
  let addr ← readIpv6Addr
  let _ ← readScopeId <|> pure 0
  readGivenChar ']'
  let port ← readPort
  return ⟨.v6 addr, port⟩

/-- What a reader makes of a text that it takes as a whole. -/
def parseWith {α : Type} (inner : Reader α) (t : Text) : Option α :=
  match inner t with
  | some (result, []) => some result
  | _ => none

def parseIpAddr (t : Text) : Option IpAddr := parseWith readIpAddr t

def parseSocketAddr (t : Text) : Option SocketAddr :=
  parseWith (readSocketAddrV4 <|> readSocketAddrV6) t

end Net
