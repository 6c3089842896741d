import ResolverGate.Blocklist
import ResolverGate.Message.Query
import ResolverGate.Notice

/-! # Admission

The checks that every complete client message goes through, in order. The
first that applies settles what becomes of the message.
-/

namespace ResolverGate

inductive DropReason
  | shortHeader | response | truncatedQuestion
  deriving DecidableEq, Repr

def DropReason.text : DropReason → String
  | shortHeader => "short header"
  | response => "response bit set"
  | truncatedQuestion => "truncated question"

inductive Refusal
  | truncated
  | recursionNotDesired
  | opcode
  | counts
  | noQuestion
  | edns
  | blocked
  | zoneTransfer
  | metaType
  | chaos
  deriving DecidableEq, Repr

def Refusal.rcode : Refusal → Rcode
  | truncated | counts | noQuestion | edns | metaType => .formErr
  | opcode => .notImp
  | recursionNotDesired | blocked | zoneTransfer | chaos => .refused

inductive Admission
  /-- No reply. -/
  | drop (reason : DropReason)
  /-- Replied to without the engine. -/
  | refuse (refusal : Refusal) (reply : Bytes)
  /-- Told who we are. -/
  | identify (reply : Bytes)
  /-- For the engine to answer. -/
  | forward (query : Query)
  deriving DecidableEq, Repr

structure Policy where
  blocklist : Blocklist
  logBlocked : Bool

namespace Policy

def identity : String := "ferrous-frontend"

/-- Names that ask for our identity, in class CH and any case. -/
def identityNames : List String := ["version.server.", "version.bind."]

def asksIdentity (name : String) : Bool :=
  identityNames.any (· == Blocklist.lowerAscii name)

def judgeQuery (policy : Policy) (q : Query) : Admission :=
  let refuse (r : Refusal) := Admission.refuse r (q.errorReply r.rcode)
  if policy.blocklist.contains q.question.name then refuse .blocked
  else if q.question.qtype.isZoneTransfer then refuse .zoneTransfer
  else if q.question.qtype.isMeta then refuse .metaType
  else if q.question.qclass = .chaos then
    if asksIdentity q.question.name then
      .identify (Reply.identity q.header q.question identity)
    else refuse .chaos
  else .forward q

/-- The checks that the header alone decides. -/
def headerRefusal? (h : Header) : Option Refusal :=
  if h.truncated then some .truncated
  else if !h.recursionDesired then some .recursionNotDesired
  else if h.opcode ≠ 0 then some .opcode
  else if h.qdcount ≠ 1 ∧ h.ancount ≠ 0 ∧ h.nscount ≠ 0 ∧ 1 < h.arcount then some .counts
  else none

def judge (policy : Policy) (packet : Bytes) : Admission :=
  match Header.read? packet with
  | none => .drop .shortHeader
  | some (h, body) =>
    if h.isResponse then .drop .response
    else
      let question := if h.qdcount = 0 then .error .invalidName else Question.read body
      let refuse (r : Refusal) (question : Option Question) :=
        Admission.refuse r (Reply.error h question none r.rcode)
      match question with
      | .error .truncated => .drop .truncatedQuestion
      | .error .invalidName => refuse ((headerRefusal? h).getD .noQuestion) none
      | .ok (question, rest) =>
        match headerRefusal? h with
        | some r => refuse r question
        | none =>
          match Edns.read h rest with
          | .error _ => refuse .edns question
          | .ok edns => policy.judgeQuery ⟨h, question, edns⟩

/-- What to tell the operator about a message from `client`. -/
def notices (policy : Policy) (client : SocketAddress) (packet : Bytes) :
    Admission → List Notice
  | .refuse .blocked _ =>
    if policy.logBlocked then
      match Question.ofMessage packet with
      | .ok (q, _) => [.blockedQuery q.name client]
      | .error _ => []
    else []
  | _ => []

end Policy

end ResolverGate
