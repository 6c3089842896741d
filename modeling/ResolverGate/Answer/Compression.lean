import ResolverGate.Answer.Message

/-! # Name compression

Writing records behind what a message already holds. The writer remembers the
names it laid down as targets for later pointers; everything it writes is
appended.
-/

namespace ResolverGate

namespace Answer

structure Position where
  /-- Octets written so far. -/
  offset : Nat
  /-- Places that pointers may lead to, with the labels found there. -/
  targets : List (Nat × Labels)
  /-- Names written with compression. -/
  names : Nat
  deriving Repr

namespace Position

/-- Names that end from here on are no targets. -/
def targetEnd : Nat := 0x3FFF

def maxTargets : Nat := 64

/-- After so many names the writer compresses no more. -/
def maxNames : Nat := 120

def advance? (at_ : Position) (size : Nat) : Option Position :=
  if at_.offset + size ≤ Codec.maxLength then some { at_ with offset := at_.offset + size }
  else none

/-- The first place, in order of storing, where `labels` stand. -/
def target? (targets : List (Nat × Labels)) (labels : Labels) : Option Nat :=
  (targets.find? (·.2 == labels)).map (·.1)

end Position

open Position

def pointer (target : Nat) : Bytes := Bytes.ofNumber 2 (0xC000 + target)

/-- Lays labels down at `pos`, until a target for the rest of them is known if
`compress` says to look for one. `stop` is where they would end without. -/
def layLabels (compress : Bool) (stop : Nat) :
    Nat → Labels → List (Nat × Labels) → Bytes × List (Nat × Labels)
  | _, [], targets => ([0], targets)
  | pos, l :: ls, targets =>
    match if compress then target? targets (l :: ls) else none with
    | some target => (pointer target, targets)
    | none =>
      let targets :=
        if stop < targetEnd ∧ targets.length < maxTargets then targets ++ [(pos, l :: ls)]
        else targets
      let (m, targets) := layLabels compress stop (pos + 1 + l.length) ls targets
      (UInt8.ofNat l.length :: l ++ m, targets)

/-- Writes a name. There must be room for all its labels even if a pointer
replaces them. -/
def writeName? (at_ : Position) (labels : Labels) (compressible : Bool) :
    Option (Bytes × Position) :=
  let stop := at_.offset + labels.wireLength
  if Codec.maxLength < stop then none
  else
    let compress := compressible && at_.names < maxNames
    let (m, targets) := layLabels compress stop at_.offset labels at_.targets
    let names := if compress then at_.names + 1 else at_.names
    (advance? { at_ with targets, names } m.length).map (m, ·)

def Piece.write? (at_ : Position) : Piece → Option (Bytes × Position)
  | octets m => (at_.advance? m.length).map (m, ·)
  | name labels compressible => writeName? at_ labels compressible

def writePieces? (at_ : Position) : List Piece → Option (Bytes × Position)
  | [] => some ([], at_)
  | p :: ps => do
    let (m, at_) ← p.write? at_
    let (ms, at_) ← writePieces? at_ ps
    return (m ++ ms, at_)

def Record.write? (at_ : Position) (r : Record) : Option (Bytes × Position) := do
  let (owner, at_) ← writeName? at_ r.owner true
  let fixed := Bytes.of16 r.rtype.code ++ Bytes.of16 r.rclass ++ Bytes.of32 r.ttl
  let at_ ← at_.advance? (fixed.length + 2)
  let (rdata, at_) ← writePieces? at_ r.rdata
  return (owner ++ fixed ++ Bytes.ofNumber 2 rdata.length ++ rdata, at_)

end Answer

end ResolverGate
