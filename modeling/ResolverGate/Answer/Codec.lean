import ResolverGate.Bytes
import ResolverGate.Message.Code

/-! # Codecs

What takes an answer apart into records, and writes records again. Replies are made by way of
any codec; what is relied on is stated apart from it.
-/

namespace ResolverGate

namespace Answer

structure Sections (R : Type) where
  answers : List R
  authority : List R
  additional : List R
  deriving DecidableEq, Repr

namespace Sections

variable {R : Type}

def empty : Sections R := ⟨[], [], []⟩

def records (s : Sections R) : List R := s.answers ++ s.authority ++ s.additional

end Sections

/-- A codec for records `R`, whose writers are `W`. It says in words what it refuses. -/
structure Codec (R W : Type) where
  sections : Bytes → Except String (Sections R)
  rtype : R → RecordType
  /-- A writer that has written nothing. -/
  fresh : W
  /-- What a writer has written. -/
  written : W → Bytes
  put : W → Bytes → Except String W
  emit : W → R → Except String W

namespace Codec

variable {R W : Type}

/-- Writers append. -/
structure Lawful (codec : Codec R W) : Prop where
  fresh : codec.written codec.fresh = []
  put {w w' : W} {m : Bytes} : codec.put w m = .ok w' → codec.written w' = codec.written w ++ m
  emit {w w' : W} {r : R} : codec.emit w r = .ok w' → codec.written w <+: codec.written w'

def maxLength : Nat := 65535

/-- A writer refuses what makes a message too long, and nothing else. A record takes `size` octets
at most, of which some are left out where a name stands in the message already. -/
structure Roomy (codec : Codec R W) (size : R → Nat) : Prop extends codec.Lawful where
  put_iff {w : W} {m : Bytes} : (∃ w', codec.put w m = .ok w') ↔
    (codec.written w).length + m.length ≤ maxLength
  bound {w w' : W} {r : R} : (codec.written w).length ≤ maxLength → codec.emit w r = .ok w' →
    (codec.written w').length ≤ maxLength
  room {w : W} {r : R} : (codec.written w).length + size r ≤ maxLength →
    ∃ w', codec.emit w r = .ok w' ∧
      (codec.written w').length ≤ (codec.written w).length + size r
  size_pos (r : R) : 0 < size r

end Codec

end Answer

end ResolverGate
