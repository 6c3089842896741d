import ResolverGate.Message.Reply

/-! # Client queries

What is kept of a client's message while its answer is awaited.
-/

namespace ResolverGate

inductive Transport
  | udp | tcp
  deriving DecidableEq, Repr

structure Query where
  header : Header
  question : Question
  edns : Option Edns
  deriving DecidableEq, Repr

namespace Query

/-- Payload limit of UDP clients that announce none. -/
def plainUdpSize : UInt16 := 512

variable (q : Query)

def dnssecOk : Bool := (q.edns.map (·.dnssecOk)).getD false

def checkingDisabled : Bool := q.header.checkingDisabled

def maxAnswerSize : Transport → UInt16
  | .tcp => 65535
  | .udp => max ((q.edns.map (·.udpSize)).getD plainUdpSize) plainUdpSize

def errorReply (rcode : Rcode) : Bytes :=
  Reply.error q.header (some q.question) q.edns rcode

end Query

end ResolverGate
