import ResolverGate.Admission
import ResolverGate.Answer.Layout
import ResolverGate.Backend.Sending
import ResolverGate.WireBuffer

/-! # Pending queries

A client's query from the first octet until its reply is handed over. Each turn
of a query says what becomes of it, what to send and what to do next.
-/

namespace ResolverGate

/-- Where the answer goes; `C` is a TCP connection. -/
inductive Origin (C : Type)
  | udp (listener : Nat)
  | tcp (conn : C)
  deriving DecidableEq, Repr

namespace Origin

variable {C : Type}

def transport : Origin C → Transport
  | udp _ => .udp
  | tcp _ => .tcp

def connection? : Origin C → Option C
  | udp _ => none
  | tcp conn => some conn

def map (f : C → C) : Origin C → Origin C
  | udp listener => udp listener
  | tcp conn => tcp (f conn)

end Origin

inductive Stage
  | accepted
  /-- Waiting for the two octets of the length. -/
  | readingLength
  | readingBody
  /-- With the engine, which has not answered in full. -/
  | forwarded
  /-- The framed answer is not written in full. -/
  | writing
  deriving DecidableEq, Repr

namespace Stage

def isReading (s : Stage) : Bool := s = readingLength || s = readingBody

def text : Stage → String
  | accepted => "accepted"
  | readingLength => "reading_length"
  | readingBody => "reading_body"
  | forwarded => "forwarded"
  | writing => "writing"

end Stage

structure Pending (C : Type) where
  id : QueryId
  peer : SocketAddress
  origin : Origin C
  stage : Stage
  query : WireBuffer
  answer : WireBuffer
  parsed : Option Query
  deriving DecidableEq, Repr

structure Datagram where
  listener : Nat
  peer : SocketAddress
  payload : Bytes
  deriving DecidableEq, Repr

inductive Outcome
  /-- The engine is to act next. -/
  | waiting
  | readMore
  | sendDatagram (datagram : Datagram)
  | startWriting
  | writeMore
  /-- The query is gone, and its connection closed. -/
  | released
  deriving DecidableEq, Repr

structure EncoderCall where
  answer : Bytes
  query : Query
  limits : Answer.Limits
  deriving DecidableEq, Repr

def EncoderCall.layOut {R W : Type} (codec : Answer.Codec R W) (c : EncoderCall) :
    Except Fault Bytes :=
  (Answer.reply codec c.answer c.query c.limits).mapError .answerEncoding

def Query.request (q : Query) (id : QueryId) : Request :=
  .query id q.question.name q.question.qtype q.question.qclass

/-- Whether the engine failed the query. A bogus answer is one only to clients that
leave checking to us. -/
def Fragment.fails (f : Fragment) (q : Query) : Bool :=
  f.srvfail || (f.bogus && !q.checkingDisabled)

/-- What one operation meets outside of the engine. -/
structure Host where
  backend : Backend
  memory : Memory

structure Setting where
  tcpInitialBuffer : Nat
  minimize : Bool
  policy : Policy
  encoder : EncoderCall → Except Fault Bytes

structure Turn (C : Type) where
  /-- The query afterwards; none if it is released. -/
  entry : Option (Pending C)
  outcome : Except Fault Outcome
  sent : List Request
  /-- Messages of the client that went through admission. -/
  judged : List Bytes
  encoded : List EncoderCall
  notices : List Notice

namespace Turn

variable {C : Type}

def keep (p : Pending C) (o : Outcome) : Turn C := ⟨some p, .ok o, [], [], [], []⟩

def gone : Turn C := ⟨none, .ok .released, [], [], [], []⟩

def notify (t : Turn C) (ns : List Notice) : Turn C := { t with notices := ns ++ t.notices }

end Turn

namespace Pending

variable {C : Type}

def start (id : QueryId) (peer : SocketAddress) (origin : Origin C) (stage : Stage)
    (query answer : WireBuffer) : Pending C :=
  ⟨id, peer, origin, stage, query, answer, none⟩

/-- The query that a datagram holds in whole. There must be room for it, and for an answer
of its length. -/
def ofDatagram (memory : Memory) (id : QueryId) (listener : Nat) (peer : SocketAddress)
    (m : Bytes) : Except Fault (Pending C) := do
  let query ← WireBuffer.ofCapacity (memory .query) m.length
  let answer ← WireBuffer.ofCapacity (memory .answer) m.length
  let query ← query.write m
  return .start id peer (.udp listener) .accepted query.flip answer

def ofConnection (id : QueryId) (peer : SocketAddress) (conn : C) (buffer : WireBuffer) :
    Pending C :=
  .start id peer (.tcp conn) .readingLength buffer .empty

/-- Octets in front of a message on a TCP connection. -/
def lengthSize : Nat := 2

/-- An answer behind its length, if that fits two octets. -/
def frame (memory : Memory) (answer : Bytes) : Except Fault WireBuffer :=
  if answer.length < 0x10000 then do
    let framed ← WireBuffer.ofCapacity (memory .framed) (answer.length + lengthSize)
    let framed ← framed.write (Bytes.ofNumber 2 answer.length)
    let framed ← framed.write answer
    return framed.flip
  else .error (.bufferOverflow answer.length 0xFFFF)

variable (p : Pending C)

/-- UDP answers leave in one datagram, and with them the query. -/
def sendAnswer (memory : Memory) (answer : Bytes) : Turn C :=
  match p.origin with
  | .udp listener => ⟨none, .ok (.sendDatagram ⟨listener, p.peer, answer⟩), [], [], [], []⟩
  | .tcp _ =>
    match frame memory answer with
    | .ok framed => .keep { p with answer := framed, stage := .writing } .startWriting
    | .error e => Turn.gone.notify [.notFramed p.id e]

def settle (host : Host) : Admission → Turn C
  | .drop _ => .gone
  | .refuse _ reply => p.sendAnswer host.memory reply
  | .identify reply => p.sendAnswer host.memory reply
  | .forward q =>
    match host.backend 0 (q.request p.id) with
    | .ok () =>
      { Turn.keep { p with stage := .forwarded, parsed := some q } .waiting with
        sent := [q.request p.id] }
    | .error e =>
      (sendAnswer { p with parsed := some q } host.memory (q.errorReply .servFail)).notify
        [.notForwarded p.id e]

def judge (s : Setting) (host : Host) : Turn C :=
  let packet := p.query.upToLimit
  let admission := s.policy.judge packet
  { (p.settle host admission).notify (s.policy.notices p.peer packet admission) with
    judged := [packet] }

/-- Once the length is there, room for exactly the message replaces it, and what
came with it moves there. If that fails, what to say when the query is dropped. -/
def enterBody (memory : Memory) : Except (List Notice) (Pending C) :=
  if p.stage = .readingLength ∧ lengthSize ≤ p.query.position then
    match p.query.flip.readWord? with
    | none => .error []
    | some (length, surplus) =>
      match WireBuffer.ofCapacity (memory .query) length.toNat with
      | .error fault => .error [.queryDropped p.id fault]
      | .ok body =>
        match body.write (surplus.current.take length.toNat) with
        | .error _ => .error []
        | .ok body => .ok { p with query := body, stage := .readingBody }
  else .ok p

/-- Octets arrive on the connection; none if the client closed its side. -/
def received (s : Setting) (host : Host) (chunk : Bytes) : Turn C :=
  if !p.stage.isReading then .keep p .waiting
  else if chunk.isEmpty then .gone
  else
    match p.query.write (chunk.take p.query.remaining) with
    | .error _ => .gone
    | .ok query =>
      match enterBody { p with query } host.memory with
      | .error notices => Turn.gone.notify notices
      | .ok p =>
        if p.stage = .readingBody ∧ p.query.remaining = 0 then
          judge { p with query := p.query.flip } s host
        else .keep p .readMore

def wrote (count : Nat) : Turn C :=
  if p.stage ≠ .writing then .keep p .waiting
  else
    match p.answer.skip count with
    | .error _ => .gone
    | .ok answer =>
      if answer.remaining = 0 then .gone else .keep { p with answer } .writeMore

/-- Room for the whole answer is made when its first octets are awaited. -/
def prepareAnswer (memory : Memory) (f : Fragment) : Except Fault WireBuffer :=
  if p.answer.position = 0 then WireBuffer.ofCapacity (memory .answer) f.answerLength.toNat
  else .ok p.answer

def encoderCall (s : Setting) (q : Query) (answer : Bytes) : EncoderCall where
  answer
  query := q
  limits :=
    { maxSize := q.maxAnswerSize p.origin.transport
      dnssecOk := q.dnssecOk
      minimize := s.minimize }

/-- The whole answer is encoded for the client; SERVFAIL if that fails. -/
def deliver (s : Setting) (memory : Memory) (q : Query) (answer : Bytes) : Turn C :=
  let call := p.encoderCall s q answer
  let turn :=
    match s.encoder call with
    | .ok reply => p.sendAnswer memory reply
    | .error e =>
      (p.sendAnswer memory (q.errorReply .servFail)).notify [.notEncoded p.id q.question.name e]
  { turn with encoded := [call] }

/-- A fragment of the answer arrives. SERVFAIL if there is no room for the answer. -/
def answered (s : Setting) (memory : Memory) (f : Fragment) : Turn C :=
  match p.stage, p.parsed with
  | .forwarded, some q =>
    if f.fails q then
      p.sendAnswer memory (q.errorReply .servFail)
    else
      match p.prepareAnswer memory f with
      | .error e =>
        (p.sendAnswer memory (q.errorReply .servFail)).notify [.notBuffered p.id e]
      | .ok answer =>
        let p := { p with answer }
        if answer.capacity < answer.position + f.data.length then
          { Turn.keep p .waiting with
            outcome := .error (.backendProtocol
              (.overrun f.data.length answer.position answer.capacity p.id)) }
        else
          match answer.write f.data with
          | .error e => { Turn.keep p .waiting with outcome := .error e }
          | .ok answer =>
            if answer.isFull then deliver { p with answer } s memory q answer.flip.upToLimit
            else .keep { p with answer } .waiting
  | _, _ => (Turn.keep p .waiting).notify [.unexpectedAnswer p.id p.stage.text]

end Pending

end ResolverGate
