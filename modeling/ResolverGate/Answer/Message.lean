import ResolverGate.Answer.Codec
import ResolverGate.Answer.RecordData
import ResolverGate.Message.Header

/-! # Answers

The message that the engine answers with, taken apart into its records.
-/

namespace ResolverGate

namespace Answer

structure Record where
  owner : Labels
  rtype : RecordType
  rclass : UInt16
  ttl : UInt32
  rdata : List Piece
  deriving DecidableEq, Repr

def updateOpcode : UInt16 := 5

namespace Scan

/-- Only records of updates and OPT records go without data. -/
def record (opcode : UInt16) : Scan Record := do
  let owner ← name
  let rtype : RecordType := ⟨← word⟩
  if rtype = .opt ∧ owner ≠ [] then throw (.ownedOpt owner)
  let rclass ← word
  let ttl ← longWord
  let length ← number 2
  let left ← left
  if left < length then throw (.longData length left)
  if length = 0 then
    if opcode = updateOpcode ∨ rtype = .opt then return ⟨owner, rtype, rclass, ttl, []⟩
    else throw .noData
  else return ⟨owner, rtype, rclass, ttl, ← recordData rtype length⟩

def records (opcode : UInt16) : Nat → Scan (List Record)
  | 0 => return []
  | n + 1 => do
    let r ← record opcode
    if r.rtype = .opt ∨ r.rtype = .sig ∨ r.rtype = .tsig then throw (.misplaced r.rtype)
    return r :: (← records opcode n)

/-- The `n` records of the additional section. At most one OPT record stands among
them, and a transaction signature ends them; both are left out. -/
def additionalRecords (opcode : UInt16) : (optSeen signed : Bool) → Nat → Scan (List Record)
  | _, _, 0 => return []
  | optSeen, signed, n + 1 => do
    let r ← record opcode
    if signed then throw .afterSignature
    if r.rtype = .opt then
      if optSeen then throw .secondOpt
      additionalRecords opcode true signed n
    else if r.rtype = .tsig ∧ r.rdata ≠ [] then additionalRecords opcode optSeen true n
    else return r :: (← additionalRecords opcode optSeen signed n)

/-- What follows the header `h`; octets behind the records are ignored. -/
def sections (h : Header) : Scan (Sections Record) := do
  questions h.qdcount.toNat
  let answers ← records h.opcode h.ancount.toNat
  let authority ← records h.opcode h.nscount.toNat
  let additional ← additionalRecords h.opcode false false h.arcount.toNat
  return ⟨answers, authority, additional⟩

end Scan

/-- The records of the message with header `h`. -/
def readSections (h : Header) (p : Packet) : Except Defect (Sections Record) :=
  (Scan.sections h).resultAt p Header.size

end Answer

end ResolverGate
