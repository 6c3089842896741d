import ResolverGate.Message.Header

/-! # Questions

The first question of a client's message. Its name is a list of labels, never
compressed; the reader keeps the octets it consumed so that a reply can echo
them.
-/

namespace ResolverGate

/-- A domain name as its labels, the root left out. -/
abbrev Labels := List Bytes

namespace Labels

/-- Longest name on the wire, length octets and root included. -/
def maxWireLength : Nat := 255

def wireLength (ls : Labels) : Nat := ls.foldr (fun l n => l.length + 1 + n) 0

/-- Each label behind its length; the root octet is not written. -/
def encode (ls : Labels) : Bytes :=
  ls.flatMap fun l => UInt8.ofNat l.length :: l

/-- Letters, digits, `-`, `_` and `*` show as they are, all else as `?`. -/
def shownChar (b : UInt8) : Char :=
  let c := Char.ofNat b.toNat
  if c.isAlphanum || c == '-' || c == '_' || c == '*' then c else '?'

/-- Labels each followed by a dot; the root alone is a dot. -/
def text (ls : Labels) : String :=
  match ls with
  | [] => "."
  | _ => String.ofList (ls.flatMap fun l => l.map shownChar ++ ['.'])

end Labels

structure Question where
  /-- Presentation form, with a final dot and the case of the wire. -/
  name : String
  qtype : RecordType
  qclass : RecordClass
  /-- The question as received: name, type and class. -/
  wire : Bytes
  deriving DecidableEq, Repr

inductive QuestionError
  /-- The message ends inside the question. -/
  | truncated
  /-- A pointer, a reserved length octet, or more than 255 octets. -/
  | invalidName
  deriving DecidableEq, Repr

namespace Labels

/-- Labels up to the root octet, which is consumed. `room` is what the labels
may still take on the wire. -/
def read (room : Nat) (m : Bytes) : Except QuestionError (Labels × Bytes) :=
  match m with
  | [] => .error .truncated
  | len :: rest =>
    if len = 0 then .ok ([], rest)
    else if 64 ≤ len.toNat then .error .invalidName
    else match Bytes.splitAt? len.toNat rest with
      | none => .error .truncated
      | some (label, rest) =>
        if _fits : len.toNat + 1 ≤ room then
          match read (room - (len.toNat + 1)) rest with
          | .ok (labels, rest) => .ok (label :: labels, rest)
          | .error e => .error e
        else .error .invalidName
termination_by room

end Labels

namespace Question

def read (m : Bytes) : Except QuestionError (Question × Bytes) :=
  match Labels.read (Labels.maxWireLength - 1) m with
  | .error e => .error e
  | .ok (labels, rest) =>
    match Bytes.splitAt? 4 rest with
    | some ([t₁, t₀, c₁, c₀], rest) =>
      .ok ({ name := labels.text
             qtype := ⟨UInt16.ofNat (Bytes.toNumber [t₁, t₀])⟩
             qclass := ⟨UInt16.ofNat (Bytes.toNumber [c₁, c₀])⟩
             wire := labels.encode ++ [0, t₁, t₀, c₁, c₀] }, rest)
    | _ => .error .truncated

def ofMessage (m : Bytes) : Except QuestionError (Question × Bytes) :=
  read (m.drop Header.size)

def ending (q : Question) : Nat := Header.size + q.wire.length

end Question

end ResolverGate
