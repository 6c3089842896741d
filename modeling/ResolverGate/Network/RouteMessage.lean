import ResolverGate.Bytes

/-! # Routing messages

What the kernel's routing socket tells about interfaces and advertised
resolvers. Numbers in its headers are little-endian. A message or an option
that does not fit ends the walk it stands in and nothing else.
-/

namespace ResolverGate

inductive RouteMessage
  | arrival (ifIndex : UInt32)
  | departure (ifIndex : UInt32)
  | info (ifIndex : UInt32)
  /-- The family and the addresses are as the system gives them. -/
  | proposal (ifIndex : UInt32) (source : UInt8) (family : UInt16) (payload : Bytes)
  deriving DecidableEq, Repr

namespace RouteMessage

def headerSize : Nat := 16

/-- Octets in front of a link message's attributes and of a user option message's
options. -/
def bodySize : Nat := 16

def newLink : Nat := 16
def deleteLink : Nat := 17
def newUserOption : Nat := 68

def resolverOption : UInt8 := 25

/-- The source of resolvers learned from router advertisements. -/
def advertised : UInt8 := 59

def littleEndian (m : Bytes) : Nat := Bytes.toNumber m.reverse

/-- The interface index in a body, unless it is negative. -/
def index? (body : Bytes) : Option UInt32 :=
  let n := littleEndian ((body.drop 4).take 4)
  if n < 0x80000000 then some (UInt32.ofNat n) else none

/-- The resolver proposals among options that count in units of eight octets. A
lifetime of zero proposes no addresses. -/
def optionProposals (ifIndex : UInt32) (family : UInt16) (m : Bytes) : List RouteMessage :=
  match m with
  | kind :: units :: rest =>
    let size := units.toNat * 8
    if size = 0 then []
    else
      match _h : Bytes.splitAt? (size - 2) rest with
      | none => []
      | some (option, rest) =>
        let found :=
          if kind = resolverOption then
            let lifetime := Bytes.toNumber ((option.drop 2).take 4)
            let payload := if lifetime = 0 then [] else option.drop 6
            [proposal ifIndex advertised family payload]
          else []
        found ++ optionProposals ifIndex family rest
  | _ => []
termination_by m.length
decreasing_by
  have := (Bytes.splitAt?_eq_some_iff.mp _h).1
  simp only [this, List.length_cons, List.length_append]
  omega

def ofUserOptions (body : Bytes) : List RouteMessage :=
  if Bytes.hasAtLeast bodySize body then
    match index? body with
    | none => []
    | some ifIndex =>
      let family := UInt16.ofNat (littleEndian (body.take 1))
      let size := littleEndian ((body.drop 2).take 2)
      match Bytes.splitAt? size (body.drop bodySize) with
      | none => []
      | some (options, _) => optionProposals ifIndex family options
  else []

def linkIndex? (body : Bytes) : Option UInt32 :=
  if Bytes.hasAtLeast bodySize body then index? body else none

def ofBody (kind : Nat) (body : Bytes) : List RouteMessage :=
  if kind = newLink then (linkIndex? body).toList.map info
  else if kind = deleteLink then (linkIndex? body).toList.map departure
  else if kind = newUserOption then ofUserOptions body
  else []

/-- Messages stand at multiples of four octets. -/
def align (size : Nat) : Nat := (size + 3) / 4 * 4

theorem le_align (size : Nat) : size ≤ align size := by simp only [align]; omega

/-- The messages in a datagram of the routing socket. -/
def ofDatagram (m : Bytes) : List RouteMessage :=
  match _h : Bytes.splitAt? headerSize m with
  | none => []
  | some (header, rest) =>
    let size := littleEndian (header.take 4)
    let kind := littleEndian ((header.drop 4).take 2)
    if _large : headerSize ≤ size ∧ Bytes.hasAtLeast (size - headerSize) rest then
      ofBody kind (rest.take (size - headerSize)) ++ ofDatagram (m.drop (align size))
    else []
termination_by m.length
decreasing_by
  obtain ⟨whole, full⟩ := Bytes.splitAt?_eq_some_iff.mp _h
  have := le_align (littleEndian (header.take 4))
  simp only [headerSize] at *
  simp [whole, full]
  omega

end RouteMessage

end ResolverGate
