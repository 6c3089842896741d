import ResolverGate.Address

/-! # Printed addresses

IPv4 addresses are dotted quads. In IPv6 addresses the longest run of zero
groups, the first of equal ones, shrinks to `::` if it has two groups or more.
-/

namespace ResolverGate

def dottedQuad (octets : Bytes) : String :=
  String.intercalate "." (octets.map fun b => b.toNat.repr)

def groups : Bytes → List Nat
  | a :: b :: m => Bytes.toNumber [a, b] :: groups m
  | _ => []

def leadingZeros (gs : List Nat) : Nat := (gs.takeWhile (· = 0)).length

/-- Start and length of the longest run of zeros; of equal runs the first. -/
def longestZeroRun : Nat → List Nat → Nat × Nat
  | start, [] => (start, 0)
  | start, g :: gs =>
    let here := leadingZeros (g :: gs)
    let later := longestZeroRun (start + 1) gs
    if later.2 ≤ here then (start, here) else later

def hexGroups (gs : List Nat) : String :=
  String.intercalate ":" (gs.map fun g => String.ofList (Nat.toDigits 16 g))

/-- Addresses that stand for IPv4 ones show those. -/
def colonGroups (octets : Bytes) : String :=
  if octets.take 12 = List.replicate 10 0 ++ [255, 255] then
    "::ffff:" ++ dottedQuad (octets.drop 12)
  else
    let gs := groups octets
    let (start, size) := longestZeroRun 0 gs
    if size < 2 then hexGroups gs
    else hexGroups (gs.take start) ++ "::" ++ hexGroups (gs.drop (start + size))

def IpAddress.text (a : IpAddress) : String :=
  match a.family with
  | .inet => dottedQuad a.octets
  | .inet6 => colonGroups a.octets

def SocketAddress.text (a : SocketAddress) : String :=
  match a.ip.family with
  | .inet => a.ip.text ++ ":" ++ a.port.toNat.repr
  | .inet6 =>
    let scope := if a.scope = 0 then "" else "%" ++ a.scope.toNat.repr
    "[" ++ a.ip.text ++ scope ++ "]:" ++ a.port.toNat.repr

end ResolverGate
