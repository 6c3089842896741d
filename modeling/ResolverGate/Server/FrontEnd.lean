import ResolverGate.Backend.Channel
import ResolverGate.Server.AcceptLoop
import ResolverGate.Server.Dispatcher

/-! # The running front end

Listeners, accept loop, dispatcher and the channel to the engine together. After
each thing that happens outside, they go on until all of them wait.
-/

namespace ResolverGate

/-- What a client's connection holds for the front end. -/
structure Stream where
  unread : Bytes
  /-- Whether the client sends nothing more. -/
  ended : Bool
  deriving DecidableEq, Repr

inductive FrontEndState
  | running
  | stopped
  | failed (fault : Fault)
  /-- The dispatcher draws ids without end, all of them in use. -/
  | stuck
  deriving DecidableEq, Repr

/-- Connections have numbers. `K` holds the trust anchors that are kept. -/
structure FrontEnd (K : Type) where
  dispatcher : Dispatcher Nat K
  state : FrontEndState
  acceptLoop : AcceptLoop
  /-- Connections that are not accepted yet. -/
  backlog : List (Nat × SocketAddress)
  /-- The streams of all open connections. -/
  streams : List (Nat × Stream)
  /-- Whether descriptors are scarce. -/
  nearLimit : Bool
  memory : Memory
  reader : EventReader
  writer : RequestWriter
  maxDatagram : Nat
  /-- In milliseconds, as all times. -/
  tcpTimeout : Nat
  now : Nat

structure Reaction where
  /-- What the engine receives. -/
  requests : Bytes
  datagrams : List Datagram
  written : List (Nat × Bytes)
  closed : List Nat
  deriving DecidableEq, Repr

namespace Reaction

def none : Reaction := ⟨[], [], [], []⟩

instance : Append Reaction where
  append a b := ⟨a.requests ++ b.requests, a.datagrams ++ b.datagrams, a.written ++ b.written,
    a.closed ++ b.closed⟩

end Reaction

inductive Stimulus
  | datagram (listener : Nat) (peer : SocketAddress) (payload : Bytes)
  | connection (number : Nat) (peer : SocketAddress)
  /-- The client sends on its connection. -/
  | octets (number : Nat) (octets : Bytes)
  /-- The client sends nothing more on its connection. -/
  | finish (number : Nat)
  | engine (octets : Bytes)
  | engineClosed
  | listenerFailed (fault : Fault)
  | replaceBlocklist (blocklist : Blocklist)
  | budget (near : Bool)
  /-- What the allocator has changes. -/
  | memory (memory : Memory)
  | shutdown

namespace FrontEnd

variable {K : Type} (f : FrontEnd K)

/-- The way that signals take; it is empty whenever all wait. -/
def queue : SignalQueue Nat := ⟨1024, [], f.state ≠ .running⟩

/-- Requests are taken while the channel can write. -/
def backend : Backend := fun _ _ =>
  if f.writer.stopped then .error .backendUnavailable else .ok ()

def host : Host := ⟨f.backend, f.memory⟩

def write : RequestWriter → List Request → Bytes × RequestWriter
  | w, [] => ([], w)
  | w, r :: rs =>
    match w.send r with
    | .error _ => ([], w)
    | .ok (m, w) =>
      let (ms, w) := write w rs
      (m ++ ms, w)

/-- With the dispatcher all connections end, and none is accepted any more. -/
def stop (state : FrontEndState) : FrontEnd K × Reaction :=
  ({ f with
      state
      acceptLoop := { f.acceptLoop with stage := .ended, closed := true }
      backlog := []
      streams := [] },
    { Reaction.none with closed := f.streams.map (·.1) })

def dispatch (i : DispatcherInput Nat) : FrontEnd K × Reaction :=
  if f.state ≠ .running then (f, .none)
  else
    match { f.dispatcher with now := f.now }.step f.host i with
    | none => ({ f with state := .stuck }, .none)
    | some (result, dispatcher, done) =>
      let (requests, writer) := write f.writer done.sent
      let f := { f with
        dispatcher
        writer
        streams := f.streams.filter fun s => !done.closed.contains s.1 }
      let seen : Reaction := ⟨requests, done.datagrams, [], done.closed⟩
      match result with
      | .ok () => (f, seen)
      | .error fault =>
        let (f, more) := f.stop (.failed fault)
        (f, seen ++ more)

def signalAll : FrontEnd K → List (Signal Nat) → FrontEnd K × Reaction
  | f, [] => (f, .none)
  | f, s :: signals =>
    let (f, seen) := f.dispatch (.signal s)
    let (f, more) := signalAll f signals
    (f, seen ++ more)

def putStream (number : Nat) (s : Stream) : FrontEnd K :=
  { f with streams := f.streams.map fun e => if e.1 = number then (number, s) else e }

/-- The watch can fire now: its stream has something to read or an end, or it may
be written. -/
def isReady (w : Watch) : Bool :=
  match w.kind, f.dispatcher.connection? w.query with
  | .readable, some c =>
    (f.streams.lookup c.socket).any fun s => s.ended || !s.unread.isEmpty
  | .writable, some _ => true
  | _, _ => false

/-- Lets a watch fire. All that is there is read, as far as it is wanted, and all
that is to be written is written. -/
def fire (w : Watch) : FrontEnd K × Reaction :=
  match f.dispatcher.connection? w.query with
  | none => (f, .none)
  | some c =>
    match w.kind, f.streams.lookup c.socket with
    | .readable, some s =>
      let size := (f.dispatcher.readSize w.query).getD 0
      let f := f.putStream c.socket { s with unread := s.unread.drop size }
      f.dispatch (.readable w (.done (s.unread.take size)))
    | .writable, some _ =>
      let data := (f.dispatcher.engine.tcpPendingWrite w.query).getD []
      let (f, seen) := f.dispatch (.writable w (.done data.length))
      (f, { Reaction.none with written := [(c.socket, data)] } ++ seen)
    | _, _ => (f, .none)

/-- One turn of whatever does not wait: the accept loop, or a watch. -/
def turn? : Option (FrontEnd K × Reaction) :=
  match f.acceptLoop.stage, f.backlog with
  | .looking, _ =>
    let (_, acceptLoop) := f.acceptLoop.step (C := Nat) (.budget f.nearLimit)
    some ({ f with acceptLoop }, .none)
  | .waiting, (number, peer) :: backlog =>
    let (signals, acceptLoop) := f.acceptLoop.step (.result (.ok (number, peer)))
    some ({ f with acceptLoop, backlog }.signalAll signals)
  | _, _ => (f.dispatcher.watches.find? f.isReady).map f.fire

/-- As many turns as there may be until all wait: each takes a look, a connection,
an octet or an end, or writes an answer. -/
def work : Nat := f.streams.foldr (fun s n => s.2.unread.length + 6 + n) 2

def settleWithin : Nat → FrontEnd K → FrontEnd K × Reaction
  | 0, f => (f, .none)
  | n + 1, f =>
    match f.turn? with
    | none => (f, .none)
    | some (f, seen) =>
      let (f, more) := settleWithin n f
      (f, seen ++ more)

def settle : FrontEnd K × Reaction := settleWithin f.work f

def start (dispatcher : Dispatcher Nat K) (maxDatagram tcpTimeout backoff : Nat)
    (nearLimit : Bool) : FrontEnd K :=
  (settle
    { dispatcher
      state := .running
      acceptLoop := .start backoff
      backlog := []
      streams := []
      nearLimit
      memory := .plenty
      reader := .start
      writer := .start
      maxDatagram
      tcpTimeout
      now := 0 }).1

def receive : Stimulus → FrontEnd K × Reaction
  | .datagram listener peer payload =>
    f.dispatch (.signal (.datagram listener peer (payload.take (max f.maxDatagram 1))))
  | .connection number peer =>
    if f.acceptLoop.stage = .ended then (f, { Reaction.none with closed := [number] })
    else
      let stream : Stream := ⟨[], false⟩
      ({ f with
          backlog := f.backlog ++ [(number, peer)]
          streams := f.streams ++ [(number, stream)] },
        .none)
  | .octets number octets =>
    match f.streams.lookup number with
    | some s => (f.putStream number { s with unread := s.unread ++ octets }, .none)
    | none => (f, .none)
  | .finish number =>
    match f.streams.lookup number with
    | some s => (f.putStream number { s with ended := true }, .none)
    | none => (f, .none)
  | .engine octets =>
    let (signals, reader) := f.reader.receive octets
    { f with reader }.signalAll signals
  | .engineClosed =>
    let (signals, reader) := f.reader.finish
    { f with reader }.signalAll signals
  | .listenerFailed fault => f.dispatch (.signal (.listenerFailed fault))
  | .replaceBlocklist blocklist => f.dispatch (.signal (.replaceBlocklist blocklist))
  | .budget near => ({ f with nearLimit := near }, .none)
  | .memory memory => ({ f with memory }, .none)
  | .shutdown => if f.state = .running then f.stop .stopped else (f, .none)

/-- Something happens, and all goes on until it waits again. -/
def step (s : Stimulus) : FrontEnd K × Reaction :=
  let (f, seen) := f.receive s
  let (f, more) := f.settle
  (f, seen ++ more)

def due (w : Watch) : Nat := w.since + f.tcpTimeout

/-- The next time at which something happens by itself. -/
def nextTime? : Option Nat :=
  let timers := (f.dispatcher.watches.filter (·.kind = .idle)).map f.due
  let pauses := match f.acceptLoop.stage with
    | .pausing resume => [resume]
    | _ => []
  if f.state = .running then (timers ++ pauses).min? else pauses.min?

def clock (now : Nat) : FrontEnd K × Reaction :=
  let (_, acceptLoop) := f.acceptLoop.step (C := Nat) (.clock now)
  let f := { f with now, acceptLoop }
  let expired := f.dispatcher.watches.filter fun w => w.kind = .idle && f.due w ≤ now
  let (f, seen) := expired.foldl (fun (f, seen) w =>
    let (f, more) := f.dispatch (.timedOut w)
    (f, seen ++ more)) (f, .none)
  let (f, more) := f.settle
  (f, seen ++ more)

def advanceWithin : (most : Nat) → FrontEnd K → (target : Nat) → FrontEnd K × Reaction
  | 0, f, target => f.clock target
  | most + 1, f, target =>
    match f.nextTime? with
    | some time =>
      if time < target ∧ f.now < target then
        let (f, seen) := f.clock (max time (f.now + 1))
        let (f, more) := advanceWithin most f target
        (f, seen ++ more)
      else f.clock target
    | none => f.clock target

def advance (span : Nat) : FrontEnd K × Reaction := advanceWithin span f (f.now + span)

end FrontEnd

end ResolverGate
