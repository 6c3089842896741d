import ResolverGate.Address
import ResolverGate.Message.Question

/-! # What passes between the front end and the engine

Requests go to the resolution engine, events come from it.
-/

namespace ResolverGate

structure QueryId where
  raw : UInt64
  deriving DecidableEq, Repr

/-- Sixteen hexadecimal digits. -/
def QueryId.text (id : QueryId) : String :=
  let digits := Nat.toDigits 16 id.raw.toNat
  String.ofList (List.replicate (16 - digits.length) '0' ++ digits)

/-- Resolver addresses proposed for one interface. No addresses withdraw what
the interface proposed before. -/
structure Proposal where
  ifIndex : UInt32
  source : UInt8
  family : AddressFamily
  addresses : List IpAddress
  deriving DecidableEq, Repr

namespace Proposal

def withdrawal (ifIndex : UInt32) : Proposal := ⟨ifIndex, 0, .inet, []⟩

def isWithdrawal (p : Proposal) : Bool := p.addresses.isEmpty

end Proposal

inductive Request
  | query (id : QueryId) (qname : String) (qtype : RecordType) (qclass : RecordClass)
  | replaceResolvers (proposal : Proposal)
  | networkChanged
  | trustAnchor (anchor : String)
  | trustAnchorsDone
  deriving DecidableEq, Repr

/-- A piece of an answer. Only the piece that starts an answer tells how long
the whole one is. -/
structure Fragment where
  id : QueryId
  answerLength : UInt16
  srvfail : Bool
  bogus : Bool
  data : Bytes
  deriving DecidableEq, Repr

inductive Event
  | answer (fragment : Fragment)
  | trustAnchorAdd (anchor : String)
  | trustAnchorSetDone
  | trustAnchorSetAbort
  deriving DecidableEq, Repr

end ResolverGate
