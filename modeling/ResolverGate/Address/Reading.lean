import ResolverGate.Address

/-! # Reading addresses

Dotted quads, IPv6 groups and socket addresses. Octets take at most three
digits and no leading zero; groups take at most four; ports and scopes take as
many as they like.
-/

namespace ResolverGate

namespace AddressText

/-- A reader gives its value and the rest of the text. -/
abbrev Reader (α : Type) := List Char → Option (α × List Char)

def digit? (radix : Nat) (c : Char) : Option Nat :=
  let value :=
    if '0' ≤ c ∧ c ≤ '9' then c.toNat - '0'.toNat
    else if 'a' ≤ c ∧ c ≤ 'z' then c.toNat - 'a'.toNat + 10
    else if 'A' ≤ c ∧ c ≤ 'Z' then c.toNat - 'A'.toNat + 10
    else radix
  if value < radix then some value else none

def digits (radix : Nat) : List Char → List Nat × List Char
  | [] => ([], [])
  | c :: cs =>
    match digit? radix c with
    | some d => let (ds, rest) := digits radix cs; (d :: ds, rest)
    | none => ([], c :: cs)

/-- All the digits at the front, as a number below `bound`. -/
def number (radix bound : Nat) (maxDigits : Option Nat) (zeroFirst : Bool) : Reader Nat :=
  fun cs =>
    let (ds, rest) := digits radix cs
    let value := ds.foldl (fun n d => n * radix + d) 0
    let tooMany := match maxDigits with
      | some most => most < ds.length
      | none => false
    if ds = [] || tooMany || (!zeroFirst && ds.head? = some 0 && 1 < ds.length)
        || bound ≤ value then none
    else some (value, rest)

def char (c : Char) : Reader Unit
  | d :: rest => if c = d then some ((), rest) else none
  | [] => none

def octet : Reader Nat := number 10 256 (some 3) false

def quad : Reader Bytes := fun cs => do
  let (a, cs) ← octet cs
  let ((), cs) ← char '.' cs
  let (b, cs) ← octet cs
  let ((), cs) ← char '.' cs
  let (c, cs) ← octet cs
  let ((), cs) ← char '.' cs
  let (d, cs) ← octet cs
  return ([a, b, c, d].map UInt8.ofNat, cs)

/-- Reads behind a colon, except at the very first group. -/
def separated (first : Bool) (r : Reader α) : Reader α := fun cs =>
  if first then r cs
  else match char ':' cs with
    | some ((), cs) => r cs
    | none => none

/-- The octets of up to `room` groups and whether a dotted quad ended them, for
which room for two groups is needed. -/
def groupRun (first : Bool) : Nat → List Char → (Bytes × Bool) × List Char
  | 0, cs => (([], false), cs)
  | room + 1, cs =>
    match if 0 < room then separated first quad cs else none with
    | some (octets, cs) => ((octets, true), cs)
    | none =>
      match separated first (number 16 65536 (some 4) true) cs with
      | some (g, cs) =>
        let ((octets, ended), cs) := groupRun false room cs
        ((Bytes.ofNumber 2 g ++ octets, ended), cs)
      | none => (([], false), cs)

/-- Sixteen octets; `::` stands for one zero group or more. -/
def groupAddress : Reader Bytes := fun cs =>
  let ((front, ended), cs) := groupRun true 8 cs
  if front.length = 16 then some (front, cs)
  else if ended then none
  else do
    let ((), cs) ← char ':' cs
    let ((), cs) ← char ':' cs
    let ((back, _), cs) := groupRun true (8 - (front.length / 2 + 1)) cs
    return (front ++ List.replicate (16 - front.length - back.length) 0 ++ back, cs)

def port : Reader UInt16 := fun cs => do
  let (n, cs) ← number 10 65536 none true cs
  return (UInt16.ofNat n, cs)

def scope : Reader UInt32 := fun cs => do
  let ((), cs) ← char '%' cs
  let (n, cs) ← number 10 0x100000000 none true cs
  return (UInt32.ofNat n, cs)

def socket4 : Reader SocketAddress := fun cs => do
  let (octets, cs) ← quad cs
  let ip ← IpAddress.ofOctets? .inet octets
  let ((), cs) ← char ':' cs
  let (port, cs) ← port cs
  return (⟨ip, port, 0⟩, cs)

def socket6 : Reader SocketAddress := fun cs => do
  let ((), cs) ← char '[' cs
  let (octets, cs) ← groupAddress cs
  let ip ← IpAddress.ofOctets? .inet6 octets
  let (scope, cs) := (scope cs).getD (0, cs)
  let ((), cs) ← char ']' cs
  let ((), cs) ← char ':' cs
  let (port, cs) ← port cs
  return (⟨ip, port, scope⟩, cs)

def whole (r : Reader α) (s : String) : Option α :=
  match r s.toList with
  | some (a, []) => some a
  | _ => none

end AddressText

open AddressText

def IpAddress.ofText? (s : String) : Option IpAddress :=
  match whole quad s with
  | some octets => ofOctets? .inet octets
  | none => (whole groupAddress s).bind (ofOctets? .inet6)

def SocketAddress.ofText? (s : String) : Option SocketAddress :=
  whole socket4 s <|> whole socket6 s

end ResolverGate
