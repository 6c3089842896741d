import ResolverGate.Answer.Codec
import ResolverGate.Fault
import ResolverGate.Message.Query

/-! # Answer layouts

An answer is laid out anew for the client that asked: the client's id and
question, the records it should see, and the fullest choice of sections that
fits its transport.
-/

namespace ResolverGate

namespace Answer

structure Limits where
  maxSize : UInt16
  dnssecOk : Bool
  minimize : Bool
  deriving DecidableEq, Repr

variable {R W : Type} (codec : Codec R W)

namespace Sections

/-- OPT records are never kept; records of a DNSSEC type that was not asked for
only for a client that sets DO. -/
def keeps (limits : Limits) (qtype : RecordType) (r : R) : Bool :=
  codec.rtype r ≠ .opt &&
    (limits.dnssecOk || !(codec.rtype r).isDnssec || codec.rtype r = qtype)

/-- The records that the client should see. A minimized answer without error
leaves only the answer section, unless that is empty. -/
def kept (limits : Limits) (qtype : RecordType) (rcode : UInt16) (s : Sections R) : Sections R :=
  let answers := s.answers.filter (keeps codec limits qtype)
  if limits.minimize && rcode = Rcode.noError.code && !answers.isEmpty then
    ⟨answers, [], []⟩
  else
    ⟨answers, s.authority.filter (keeps codec limits qtype),
      s.additional.filter (keeps codec limits qtype)⟩

/-- What to try in turn, the fullest first. -/
def layouts (s : Sections R) : List (Sections R) :=
  [s, { s with additional := [] }, ⟨s.answers, [], []⟩]

end Sections

/-- The answer's flags without TC, RD, CD and opcode; QR and RA set, RD and CD of
the client; AD only for a client that understands it. -/
def replyFlags (answer : UInt16) (query : Query) (dnssecOk : Bool) : UInt16 :=
  let client := query.header.flags
  let kept := answer &&& ~~~(Header.tc ||| Header.rd ||| Header.cd ||| Header.opcodeMask)
  let flags := kept ||| Header.qr ||| Header.ra ||| (client &&& (Header.rd ||| Header.cd))
  if !dnssecOk && client &&& Header.ad == 0 then flags &&& ~~~Header.ad else flags

def blank : Bytes := List.replicate Header.size 0

def opening (question : Bytes) : Except String W := do
  codec.put (← codec.put codec.fresh blank) question

def lay (question : Bytes) (records : List R) (opt : Bytes) : Except String Bytes := do
  let w ← records.foldlM codec.emit (← opening codec question)
  if opt.isEmpty then return codec.written w else return codec.written (← codec.put w opt)

def sectionCount (n : Nat) : Except EncodingError UInt16 :=
  if n < 0x10000 then .ok (UInt16.ofNat n) else .error .largeSection

def encode (query : Query) (flags : UInt16) (s : Sections R) (opt : Bytes) :
    Except EncodingError Bytes := do
  let m ← (lay codec query.question.wire s.records opt).mapError .refused
  let header : Header :=
    { id := query.header.id
      flags
      qdcount := 1
      ancount := ← sectionCount s.answers.length
      nscount := ← sectionCount s.authority.length
      arcount := ← sectionCount (s.additional.length + if opt.isEmpty then 0 else 1) }
  return header.encode ++ m.drop Header.size

/-- The first layout that fits; if none does, no records and TC. -/
def encodeFitting (query : Query) (flags : UInt16) (opt : Bytes) (maxSize : Nat) :
    List (Sections R) → Except EncodingError Bytes
  | [] => encode codec query (flags ||| Header.tc) .empty opt
  | s :: rest => do
    let m ← encode codec query flags s opt
    if m.length ≤ maxSize then return m else encodeFitting query flags opt maxSize rest

/-- The reply for the client of `query`, made from the engine's whole answer. -/
def reply (answer : Bytes) (query : Query) (limits : Limits) : Except EncodingError Bytes :=
  match Header.read? answer with
  | none => .error .shortAnswer
  | some (h, _) =>
    match codec.sections answer with
    | .error cause => .error (.unparseable cause)
    | .ok sections =>
      let opt := if query.edns.isSome then Reply.optRecord limits.dnssecOk else []
      let flags := replyFlags h.flags query limits.dnssecOk
      let kept := sections.kept codec limits query.question.qtype h.rcode
      encodeFitting codec query flags opt limits.maxSize.toNat kept.layouts

end Answer

end ResolverGate
