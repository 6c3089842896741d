import ResolverGate.Fault

/-! # Wire buffers

Storage of a fixed capacity with two cursors. Writing fills what lies between
position and limit; flipping makes readable what was written. Operations that
fail change nothing.
-/

namespace ResolverGate

/-- What there must be room for. -/
inductive Room
  | query | answer
  /-- A reply behind its length. -/
  | framed
  deriving DecidableEq, Repr

/-- How the allocator takes the requests of one operation: whether there is room of so many
octets. -/
abbrev Memory := Room → Nat → Bool

/-- There is always room. -/
def Memory.plenty : Memory := fun _ _ => true

structure WireBuffer where
  data : Bytes
  position : Nat
  limit : Nat
  deriving DecidableEq, Repr

namespace WireBuffer

def maxCapacity : Nat := 0x7FFFFFFFFFFFFFFF

def empty : WireBuffer := ⟨[], 0, 0⟩

/-- A buffer ready to be written to, if the allocator grants it. -/
def ofCapacity (granted : Nat → Bool) (capacity : Nat) : Except Fault WireBuffer :=
  if capacity ≤ maxCapacity && granted capacity then .ok ⟨List.replicate capacity 0, 0, capacity⟩
  else .error (.outOfMemory capacity)

def ofBytes (m : Bytes) : WireBuffer := ⟨m, 0, m.length⟩

variable (b : WireBuffer)

def capacity : Nat := b.data.length

def remaining : Nat := b.limit - b.position

def isFull : Bool := b.position = b.capacity

def clear : WireBuffer := { b with position := 0, limit := b.capacity }

def flip : WireBuffer := { b with position := 0, limit := b.position }

def skip (count : Nat) : Except Fault WireBuffer :=
  if count ≤ b.remaining then .ok { b with position := b.position + count }
  else .error (.bufferOverflow count b.remaining)

def write (m : Bytes) : Except Fault WireBuffer :=
  if m.length ≤ b.remaining then
    .ok { b with
      data := b.data.take b.position ++ m ++ b.data.drop (b.position + m.length)
      position := b.position + m.length }
  else .error (.bufferOverflow m.length b.remaining)

def current : Bytes := (b.data.take b.limit).drop b.position

def upToLimit : Bytes := b.data.take b.limit

def readWord? : Option (UInt16 × WireBuffer) :=
  match Bytes.read16? b.current with
  | some (w, _) => some (w, { b with position := b.position + 2 })
  | none => none

end WireBuffer

end ResolverGate
