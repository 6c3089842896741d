import ResolverGate.Answer.Compression
import ResolverGate.Message.Header

/-! # The standard codec

Messages as the standards have them, with names compressed.
-/

namespace ResolverGate

namespace Answer

/-- Keeps what it has written, and where names stand in it. -/
structure Writer where
  octets : Packet
  targets : List (Nat × Labels)
  /-- Names written with compression. -/
  names : Nat
  deriving Repr

namespace Writer

variable (w : Writer)

def position : Position := ⟨w.octets.size, w.targets, w.names⟩

def overlongText : String := "maximum buffer size exceeded: 65535"

def put (m : Bytes) : Except String Writer :=
  if w.octets.size + m.length ≤ Codec.maxLength then
    .ok { w with octets := w.octets ++ m.toArray }
  else .error overlongText

def emit (r : Record) : Except String Writer :=
  match r.write? w.position with
  | some (m, at_) => .ok ⟨w.octets ++ m.toArray, at_.targets, at_.names⟩
  | none => .error overlongText

end Writer

def Codec.standard : Codec Record Writer where
  sections m :=
    match Header.read? m with
    | none => .error Defect.truncated.text
    | some (h, _) => (readSections h m.toArray).mapError Defect.text
  rtype := Record.rtype
  fresh := ⟨#[], [], 0⟩
  written w := w.octets.toList
  put := Writer.put
  emit := Writer.emit

end Answer

end ResolverGate
