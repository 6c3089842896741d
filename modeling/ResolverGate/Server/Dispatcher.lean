import ResolverGate.Engine
import ResolverGate.Server.Connection
import ResolverGate.Server.Signal
import ResolverGate.TrustAnchor.Manager

/-! # The dispatcher

The one owner of all pending queries. It takes signals and the watches that fire
one at a time, hands them to the query engine, and sets the watch that each
connection needs next.
-/

namespace ResolverGate

inductive Attempt (α : Type)
  | done (value : α)
  | wouldBlock
  | interrupted
  | failed
  deriving DecidableEq, Repr

/-- `S` is a socket, `K` holds the trust anchors that are kept. -/
structure Dispatcher (S K : Type) where
  engine : Engine (Connection S)
  anchors : AnchorManager K
  anchorStore : AnchorStore K
  /-- Replies leave through the listeners below this number. -/
  ownedListeners : Nat
  now : Nat
  nextSerial : Nat
  /-- Those that neither fired nor ended. -/
  watches : List Watch

/-- What one turn of the dispatcher does to the outside. -/
structure Dispatch (S : Type) where
  sent : List Request
  datagrams : List Datagram
  /-- Sockets that nothing more is read from. -/
  readShut : List S
  closed : List S
  notices : List Notice
  deriving DecidableEq, Repr

namespace Dispatch

variable {S : Type}

def none : Dispatch S := ⟨[], [], [], [], []⟩

def ofEffects (fx : Effects (Connection S)) : Dispatch S :=
  ⟨fx.sent, [], [], fx.dropped.map (·.socket), fx.notices⟩

def ofAnchors (fx : AnchorManager.Effects) : Dispatch S := ⟨fx.sent, [], [], [], fx.notices⟩

def append (a b : Dispatch S) : Dispatch S :=
  ⟨a.sent ++ b.sent, a.datagrams ++ b.datagrams, a.readShut ++ b.readShut, a.closed ++ b.closed,
    a.notices ++ b.notices⟩

instance : Append (Dispatch S) := ⟨append⟩

end Dispatch

inductive DispatcherInput (S : Type)
  | signal (signal : Signal S)
  /-- The watch fired, and reading gave this much or less. -/
  | readable (w : Watch) (read : Attempt Bytes)
  /-- The watch fired, and so many octets were written. -/
  | writable (w : Watch) (written : Attempt Nat)
  | timedOut (w : Watch)
  /-- Waiting failed. -/
  | broken (w : Watch)

namespace Dispatcher

variable {S K : Type} (d : Dispatcher S K)

def start (engine : Engine (Connection S)) (anchors : AnchorManager K) (ops : AnchorStore K)
    (ownedListeners : Nat) : Dispatcher S K :=
  ⟨engine, anchors, ops, ownedListeners, 0, 0, []⟩

def connection? (id : QueryId) : Option (Connection S) :=
  (d.engine.table.find? id).bind (·.origin.connection?)

/-- The engine has done its part; the watches of connections that it closed end. -/
def afterwards (engine : Engine (Connection S)) (fx : Effects (Connection S)) :
    Dispatcher S K × Dispatch S :=
  ({ d with
      engine
      watches := d.watches.filter fun w => !fx.dropped.any (·.owns w) },
    .ofEffects fx)

/-- Ends the connection's watch of a kind, if there is one. -/
def unwatch (kind : WatchKind) (id : QueryId) : Dispatcher S K :=
  match d.connection? id with
  | none => d
  | some c =>
    { d with
      engine := (d.engine.mapConnection id (·.setWatch none kind)).2
      watches := d.watches.filter fun w => !(w.kind = kind && c.owns w) }

/-- Sets a watch for the connection of a query in place of the last of its kind. -/
def watch (kind : WatchKind) (id : QueryId) : Dispatcher S K :=
  match d.connection? id with
  | none => d
  | some _ =>
    let d := d.unwatch kind id
    { d with
      engine := (d.engine.mapConnection id (·.setWatch (some d.nextSerial) kind)).2
      watches := d.watches ++ [⟨d.nextSerial, kind, id, d.now⟩]
      nextSerial := d.nextSerial + 1 }

/-- The request is complete: nothing more is read. -/
def stopReading (id : QueryId) : Dispatcher S K × Dispatch S :=
  match d.connection? id with
  | none => (d, .none)
  | some c => (d.unwatch .readable id, { Dispatch.none with readShut := [c.socket] })

/-- Does what the outcome of an operation on a query asks for. -/
def follow (id : Option QueryId) (outcome : Outcome) : Dispatcher S K × Dispatch S :=
  match outcome, id with
  | .sendDatagram datagram, _ =>
    (d, { Dispatch.none with
          datagrams := if datagram.listener < d.ownedListeners then [datagram] else [] })
  | .readMore, some id => (d.watch .readable id, .none)
  | .startWriting, some id => (d.watch .writable id, .none)
  | .writeMore, some id => (d.watch .writable id, .none)
  | _, _ => (d, .none)

/-- Takes over what an operation did and goes on with its outcome. -/
def proceed (id : Option QueryId)
    (r : Except Fault Outcome × Engine (Connection S) × Effects (Connection S)) :
    Except Fault Unit × Dispatcher S K × Dispatch S :=
  let (outcome, engine, fx) := r
  let (d, done) := d.afterwards engine fx
  match outcome with
  | .error fault => (.error fault, d, done)
  | .ok outcome =>
    let (d, more) := d.follow id outcome
    (.ok (), d, done ++ more)

def release (id : QueryId) : Dispatcher S K × Dispatch S :=
  let (_, engine, fx) := d.engine.release id
  d.afterwards engine fx

def accept (memory : Memory) (socket : S) (peer : SocketAddress) :
    Option (Dispatcher S K × Dispatch S) :=
  (d.engine.tcpAccepted memory peer (.ofSocket socket)).map fun (id, engine, fx) =>
    let (d, done) := d.afterwards engine fx
    match id with
    | .ok id => ((d.watch .idle id).watch .readable id, done)
    | .error _ => (d, done)

/-- A fault ends the dispatcher. None if it never gets done with the signal. -/
def onSignal (host : Host) :
    Signal S → Option (Except Fault Unit × Dispatcher S K × Dispatch S)
  | .datagram listener peer payload =>
    (d.engine.udpReceived host listener peer payload).map (d.proceed none)
  | .accepted socket peer => (d.accept host.memory socket peer).map fun done => (.ok (), done)
  | .backend (.answer fragment) =>
    some (d.proceed (some fragment.id) (d.engine.backendAnswer host.memory fragment))
  | .backend (.trustAnchorAdd anchor) =>
    some (.ok (), { d with anchors := d.anchors.propose anchor }, .none)
  | .backend .trustAnchorSetAbort => some (.ok (), { d with anchors := d.anchors.abort }, .none)
  | .backend .trustAnchorSetDone =>
    let (result, anchors, fx) := d.anchors.complete d.anchorStore host.backend
    some (result.map fun _ => (), { d with anchors }, .ofAnchors fx)
  | .backendClosed reason => some (.error (reason.getD .backendUnavailable), d, .none)
  | .listenerFailed fault => some (.error fault, d, .none)
  | .replaceBlocklist blocklist =>
    some (.ok (), { d with engine := d.engine.replaceBlocklist blocklist }, .none)

/-- At most this much is read from the query's connection, if it is read at all. -/
def readSize (id : QueryId) : Option Nat := (d.engine.tcpReadWindow id).map (max · 1)

def onReadable (host : Host) (id : QueryId) (read : Attempt Bytes) :
    Dispatcher S K × Dispatch S :=
  match d.readSize id, read with
  | none, _ => (d, .none)
  | some size, .done octets =>
    let (outcome, engine, fx) := d.engine.tcpReceived host id (octets.take size)
    let (d, done) := d.afterwards engine fx
    match outcome with
    | .error _ => (d, done)
    | .ok outcome =>
      let (d, shut) := match outcome with
        | .waiting => d.stopReading id
        | .startWriting => d.stopReading id
        | _ => (d, .none)
      let (d, more) := d.follow (some id) outcome
      (d, done ++ shut ++ more)
  | some _, .failed => d.release id
  | some _, _ => (d.watch .readable id, .none)

def onWritable (id : QueryId) (written : Attempt Nat) : Dispatcher S K × Dispatch S :=
  match d.engine.tcpPendingWrite id, written with
  | none, _ => (d, .none)
  | some data, .done count =>
    (d.proceed (some id) (d.engine.tcpWrote id (min count data.length))).2
  | some _, .failed => d.release id
  | some _, _ => (d.watch .writable id, .none)

/-- Whether the watch can still fire, and is of the kind. -/
def awaits (w : Watch) (kind : WatchKind) : Bool := w ∈ d.watches && w.kind = kind

def retire (w : Watch) : Dispatcher S K := { d with watches := d.watches.erase w }

/-- What follows when a watch fires. Timers never break. -/
def onFired (host : Host) : DispatcherInput S → Dispatcher S K × Dispatch S
  | .readable w read =>
    if d.awaits w .readable then (d.retire w).onReadable host w.query read else (d, .none)
  | .writable w written =>
    if d.awaits w .writable then (d.retire w).onWritable w.query written else (d, .none)
  | .timedOut w => if d.awaits w .idle then (d.retire w).release w.query else (d, .none)
  | .broken w =>
    if d.awaits w .readable || d.awaits w .writable then (d.retire w).release w.query
    else (d, .none)
  | .signal _ => (d, .none)

/-- One turn; none if it never ends. Watches that ended before they could fire change
nothing. -/
def step (host : Host) (i : DispatcherInput S) :
    Option (Except Fault Unit × Dispatcher S K × Dispatch S) :=
  match i with
  | .signal s => d.onSignal host s
  | i => some (.ok (), d.onFired host i)

end Dispatcher

end ResolverGate
