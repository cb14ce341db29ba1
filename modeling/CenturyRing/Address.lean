import Mathlib.Init

/-! # Internet addresses

  `prep_connect_v4` and `prep_connect_v6` take the address as text. The Rust
  side parses it with `Ipv4Addr::from_str` and `Ipv6Addr::from_str`; the
  parser below is that of Rust's standard library. A parser takes the rest of
  the input and gives a value and what it left, or fails and leaves the input
  where it was.
-/

namespace CenturyRing

/-- `std::net::Ipv4Addr`. -/
structure Ipv4Addr where
  octets : UInt8 × UInt8 × UInt8 × UInt8
  deriving DecidableEq, Repr

/-- `std::net::Ipv6Addr`. -/
structure Ipv6Addr where
  segments : List UInt16
  length_eq : segments.length = 8
  deriving DecidableEq, Repr

/-- `std::net::SocketAddr`. -/
inductive SocketAddr where
  | V4 (ip : Ipv4Addr) (port : UInt16)
  | V6 (ip : Ipv6Addr) (port : UInt16)
  deriving DecidableEq, Repr

namespace Parser

/-- `char::to_digit`. -/
def to_digit (radix : Nat) (c : Char) : Option Nat :=
  let digit :=
    if '0' ≤ c ∧ c ≤ '9' then c.toNat - '0'.toNat
    else if 'a' ≤ c ∧ c ≤ 'z' then c.toNat - 'a'.toNat + 10
    else if 'A' ≤ c ∧ c ≤ 'Z' then c.toNat - 'A'.toNat + 10
    else radix
  if digit < radix then some digit else none

/-- `read_number` for a type with values up to `max`. -/
def read_number (radix max_digits max : Nat) (zero_prefix_allowed : Bool) (input : List Char) :
    Option (Nat × List Char) :=
  let digits := (input.takeWhile fun c => (to_digit radix c).isSome).filterMap (to_digit radix)
  let result := digits.foldl (fun result digit => result * radix + digit) 0
  if max_digits < digits.length ∨ digits.length = 0 then none
  else if !zero_prefix_allowed && input.head? == some '0' && digits.length > 1 then none
  else if result ≤ max then some (result, input.drop digits.length)
  else none

/-- `read_given_char`. -/
def read_given_char (c : Char) : List Char → Option (List Char)
  | [] => none
  | c' :: input => if c' = c then some input else none

/-- `read_separator`: the separator stands before every element but the first. -/
def read_separator {α : Type} (sep : Char) (index : Nat) (inner : List Char → Option (α × List Char))
    (input : List Char) : Option (α × List Char) :=
  if index > 0 then (read_given_char sep input).bind inner else inner input

/-- `read_ipv4_addr`. -/
def read_ipv4_addr (input : List Char) : Option (Ipv4Addr × List Char) := do
  let octet := read_number 10 3 255 false
  let (a, input) ← read_separator '.' 0 octet input
  let (b, input) ← read_separator '.' 1 octet input
  let (c, input) ← read_separator '.' 2 octet input
  let (d, input) ← read_separator '.' 3 octet input
  return (⟨UInt8.ofNat a, UInt8.ofNat b, UInt8.ofNat c, UInt8.ofNat d⟩, input)

/-- Two groups of an IPv6 address from an embedded IPv4 address. -/
def embedded_groups (v4_addr : Ipv4Addr) : List UInt16 :=
  let (one, two, three, four) := v4_addr.octets
  [one.toUInt16 * 256 + two.toUInt16, three.toUInt16 * 256 + four.toUInt16]

/-- `read_groups`: up to `limit` groups behind those in `groups`, the last two
    of which may be written as an IPv4 address. -/
def read_groups (limit : Nat) : Nat → List UInt16 → List Char →
    (List UInt16 × Bool) × List Char
  | 0, groups, input => ((groups, false), input)
  | room + 1, groups, input =>
    let i := groups.length
    match if i + 1 < limit then read_separator ':' i read_ipv4_addr input else none with
    | some (v4_addr, input) => ((groups ++ embedded_groups v4_addr, true), input)
    | none =>
      match read_separator ':' i (read_number 16 4 65535 true) input with
      | some (group, input) => read_groups limit room (groups ++ [UInt16.ofNat group]) input
      | none => ((groups, false), input)

/-- An address from its eight groups. -/
def ipv6_of_groups (groups : List UInt16) : Option Ipv6Addr :=
  if h : groups.length = 8 then some ⟨groups, h⟩ else none

/-- `read_ipv6_addr`: eight groups, or fewer around one `::`. -/
def read_ipv6_addr (input : List Char) : Option (Ipv6Addr × List Char) := do
  let ((head, head_ipv4), input) := read_groups 8 8 [] input
  if head.length = 8 then
    return (← ipv6_of_groups head, input)
  -- an embedded IPv4 address may only stand at the very end
  if head_ipv4 then
    none
  let input ← read_given_char ':' input
  let input ← read_given_char ':' input
  let limit := 8 - (head.length + 1)
  let ((tail, _), input) := read_groups limit limit [] input
  let zeroes := List.replicate (8 - (head.length + tail.length)) 0
  return (← ipv6_of_groups (head ++ zeroes ++ tail), input)

/-- `parse_with`: the whole input has to be used up. -/
def parse_with {α : Type} (inner : List Char → Option (α × List Char)) (input : List Char) :
    Option α :=
  match inner input with
  | some (a, []) => some a
  | _ => none

end Parser

/-- `Ipv4Addr::from_str`. -/
def Ipv4Addr.from_str (s : String) : Option Ipv4Addr :=
  if s.length > 15 then none else Parser.parse_with Parser.read_ipv4_addr s.toList

/-- `Ipv6Addr::from_str`. -/
def Ipv6Addr.from_str (s : String) : Option Ipv6Addr :=
  Parser.parse_with Parser.read_ipv6_addr s.toList

end CenturyRing
