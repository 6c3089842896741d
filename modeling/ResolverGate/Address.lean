import ResolverGate.Bytes

/-! # Network addresses

An address is a family and as many octets as the family has.
-/

namespace ResolverGate

inductive AddressFamily
  | inet | inet6
  deriving DecidableEq, Repr

namespace AddressFamily

def addressLength : AddressFamily → Nat
  | inet => 4
  | inet6 => 16

/-- The octet that stands for a family on the backend channel. -/
def tag : AddressFamily → UInt8
  | inet => 4
  | inet6 => 6

def ofTag? (tag : UInt8) : Option AddressFamily :=
  if tag = 4 then some inet else if tag = 6 then some inet6 else none

theorem ofTag?_tag (f : AddressFamily) : ofTag? f.tag = some f := by cases f <;> rfl

theorem tag_of_ofTag? {tag : UInt8} {f : AddressFamily} (h : ofTag? tag = some f) :
    tag = f.tag := by
  unfold ofTag? at h
  split at h
  · next ht =>
    obtain rfl := Option.some.inj h
    exact ht
  split at h
  · next ht =>
    obtain rfl := Option.some.inj h
    exact ht
  · simp at h

theorem addressLength_pos (f : AddressFamily) : 0 < f.addressLength := by cases f <;> decide

end AddressFamily

structure IpAddress where
  family : AddressFamily
  octets : Bytes
  length_octets : octets.length = family.addressLength
  deriving DecidableEq, Repr

namespace IpAddress

def ofOctets? (family : AddressFamily) (octets : Bytes) : Option IpAddress :=
  if h : octets.length = family.addressLength then some ⟨family, octets, h⟩ else none

/-- The addresses that the octets hold one behind the other, and what is too
short for another. -/
def chunks (family : AddressFamily) (m : Bytes) : List IpAddress × Bytes :=
  match _h : Bytes.splitAt? family.addressLength m with
  | none => ([], m)
  | some (front, rest) =>
    let (addresses, surplus) := chunks family rest
    ((ofOctets? family front).toList ++ addresses, surplus)
termination_by m.length
decreasing_by
  obtain ⟨whole, size⟩ := Bytes.splitAt?_eq_some_iff.mp _h
  have := family.addressLength_pos
  simp [whole]
  omega

end IpAddress

structure SocketAddress where
  ip : IpAddress
  port : UInt16
  /-- The interface that an IPv6 address is local to; 0 for none. -/
  scope : UInt32
  deriving DecidableEq, Repr

end ResolverGate
