import ResolverGate.Message.Question

/-! # Client EDNS parameters

The records of a client's message are walked, not interpreted, until the OPT
record among the additional ones is found.
-/

namespace ResolverGate

structure RecordSpan where
  /-- The owner's octets, possibly ending in a pointer. -/
  owner : Bytes
  rtype : RecordType
  rclass : UInt16
  ttl : UInt32
  rdata : Bytes
  deriving DecidableEq, Repr

/-- The octets of a name, up to its root octet or pointer, and the rest. -/
def splitName? (m : Bytes) : Option (Bytes × Bytes) :=
  match m with
  | [] => none
  | len :: rest =>
    if len = 0 then some ([len], rest)
    else if len.toNat < 64 then
      match _h : Bytes.splitAt? len.toNat rest with
      | none => none
      | some (label, rest) =>
        match splitName? rest with
        | some (name, rest) => some (len :: label ++ name, rest)
        | none => none
    else if 192 ≤ len.toNat then
      match rest with
      | low :: rest => some ([len, low], rest)
      | [] => none
    else none
termination_by m.length
decreasing_by
  have := (Bytes.splitAt?_eq_some_iff.mp _h).1
  simp only [this, List.length_cons, List.length_append]
  omega

namespace RecordSpan

def read? (m : Bytes) : Option (RecordSpan × Bytes) := do
  let (owner, m) ← splitName? m
  let (rtype, m) ← Bytes.read16? m
  let (rclass, m) ← Bytes.read16? m
  let (ttl, m) ← Bytes.read32? m
  let (rdlength, m) ← Bytes.read16? m
  let (rdata, m) ← Bytes.splitAt? rdlength.toNat m
  return (⟨owner, ⟨rtype⟩, rclass, ttl, rdata⟩, m)

/-- What is left of `m` behind `n` records. -/
def skip? : Nat → Bytes → Option Bytes
  | 0, m => some m
  | n + 1, m =>
    match read? m with
    | some (_, rest) => skip? n rest
    | none => none

end RecordSpan

namespace Question

/-- What is left of `m` behind `n` questions, whose names may be compressed. -/
def skip? : Nat → Bytes → Option Bytes
  | 0, m => some m
  | n + 1, m =>
    match splitName? m with
    | none => none
    | some (_, rest) =>
      match Bytes.splitAt? 4 rest with
      | some (_, rest) => skip? n rest
      | none => none

end Question

structure Edns where
  udpSize : UInt16
  version : UInt8
  dnssecOk : Bool
  deriving DecidableEq, Repr

inductive EdnsError
  /-- The records cannot be walked. -/
  | malformed
  | duplicateOpt
  /-- An OPT record that the root does not own. -/
  | nonRootOpt
  deriving DecidableEq, Repr

namespace Edns

def doBit : UInt32 := 0x8000

def ofRecord (r : RecordSpan) : Edns where
  udpSize := r.rclass
  version := (r.ttl >>> 16).toUInt8
  dnssecOk := r.ttl &&& doBit != 0

/-- Looks for the OPT record among `n` additional records. -/
def search : Nat → Option Edns → Bytes → Except EdnsError (Option Edns)
  | 0, found, _ => .ok found
  | n + 1, found, m =>
    match RecordSpan.read? m with
    | none => .error .malformed
    | some (r, rest) =>
      if r.rtype = .opt then
        if found.isSome then .error .duplicateOpt
        else if r.owner.length ≠ 1 then .error .nonRootOpt
        else search n (some (ofRecord r)) rest
      else search n found rest

/-- The client's parameters, from what follows the first question of a message
with header `h`. -/
def read (h : Header) (m : Bytes) : Except EdnsError (Option Edns) :=
  match Question.skip? (h.qdcount.toNat - 1) m with
  | none => .error .malformed
  | some m =>
    match RecordSpan.skip? (h.ancount.toNat + h.nscount.toNat) m with
    | none => .error .malformed
    | some m => search h.arcount.toNat none m

end Edns

end ResolverGate
