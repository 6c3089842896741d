import ResolverGate.Answer.Defect

/-! # Scanning a packet

Reading a message from front to back, names with their pointers included. Where
a scan stands is known even after it has failed, for the length of a record's
data is held against what its fields have consumed.
-/

namespace ResolverGate

namespace Answer

/-- A message whose names may point anywhere before themselves. -/
abbrev Packet := Array UInt8

namespace Packet

variable (p : Packet)

def slice? (start size : Nat) : Option Bytes :=
  if start + size ≤ p.size then some (p.extract start (start + size)).toList else none

/-- The labels of the name at `pos`, and where the scan stands then. Length octets
stand before `fence`, if there is one; pointers lead to before `start`, where this
piece of the name begins; and `room` is what labels may still take. -/
def name (fence : Option Nat) (start pos room : Nat) : Except Defect Labels × Nat :=
  match fence.filter (· ≤ pos) with
  | some fence => (.error (.overlappingName start fence), pos)
  | none =>
    match p[pos]? with
    | none => (.error .truncated, pos)
    | some len =>
      if len = 0 then (.ok [], pos + 1)
      else if len.toNat < 64 then
        let next := pos + 1 + len.toNat
        match p.slice? (pos + 1) len.toNat with
        | none => (.error .truncated, pos + 1)
        | some label =>
          if _fits : len.toNat + 1 ≤ room then
            let (labels, ending) := name fence start next (room - (len.toNat + 1))
            (labels.map (label :: ·), ending)
          else (.error (.longName (Labels.maxWireLength - room + len.toNat + 1)), next)
      else if 192 ≤ len.toNat then
        match p[pos + 1]? with
        | none => (.error .truncated, pos)
        | some low =>
          let target := (len.toNat - 192) * 256 + low.toNat
          if _back : target < start then
            ((name (some start) target target room).1, pos + 2)
          else (.error (.forwardPointer pos target), pos + 2)
      else (.error (.reservedLabel len), pos)
termination_by start + room

end Packet

/-- Reads a packet from the position it is given; leaves it where it stands. -/
abbrev Scan := ReaderT Packet (ExceptT Defect (StateM Nat))

namespace Scan

variable {α : Type}

def resultAt (scan : Scan α) (p : Packet) (pos : Nat) : Except Defect α :=
  ((scan.run p).run.run pos).1

def ofExcept : Except Defect α → Scan α
  | .ok a => pure a
  | .error d => throw d

def outcome (scan : Scan α) : Scan (Except Defect α) :=
  tryCatch (Except.ok <$> scan) (pure ∘ Except.error)

def left : Scan Nat := do
  return (← read).size - (← get)

def octets (size : Nat) : Scan Bytes := do
  let pos ← get
  match (← read).slice? pos size with
  | some m =>
    set (pos + size)
    return m
  | none => throw .truncated

def number (size : Nat) : Scan Nat := do
  return Bytes.toNumber (← octets size)

def octet : Scan UInt8 := do
  return UInt8.ofNat (← number 1)

def word : Scan UInt16 := do
  return UInt16.ofNat (← number 2)

def longWord : Scan UInt32 := do
  return UInt32.ofNat (← number 4)

def name : Scan Labels := do
  let pos ← get
  let (labels, ending) := (← read).name none pos pos (Labels.maxWireLength - 1)
  set ending
  ofExcept labels

/-- A length octet and that many octets; `d` if they are not there. -/
def counted (d : Defect) : Scan Bytes := do
  let len ← octet
  if (← left) < len.toNat then throw d
  return len :: (← octets len.toNat)

def questions : Nat → Scan Unit
  | 0 => return ()
  | n + 1 => do
    let _ ← name
    let _ ← word
    let _ ← word
    questions n

end Scan

end Answer

end ResolverGate
