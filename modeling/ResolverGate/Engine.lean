import ResolverGate.Pending

/-! # The query engine

All pending queries, under their ids. An operation on one id touches the query
under that id and no other.
-/

namespace ResolverGate

/-- Candidate ids, one after the other and without end. -/
structure IdSource where
  candidate : Nat → QueryId
  drawn : Nat

namespace IdSource

/-- A queue of ids, then one number after the other. -/
def ofQueue (queue : List QueryId) (counter : UInt64) : IdSource where
  candidate n := queue[n]?.getD ⟨counter + UInt64.ofNat (n - queue.length)⟩
  drawn := 0

def ahead (ids : IdSource) (n : Nat) : QueryId := ids.candidate (ids.drawn + n)

def advance (ids : IdSource) (n : Nat) : IdSource := { ids with drawn := ids.drawn + n }

end IdSource

structure Table (C : Type) where
  entries : List (QueryId × Pending C)
  ids : IdSource

namespace Table

variable {C : Type} (t : Table C)

def empty (ids : IdSource) : Table C := ⟨[], ids⟩

def find? (id : QueryId) : Option (Pending C) := t.entries.lookup id

def contains (id : QueryId) : Bool := (t.find? id).isSome

def count : Nat := t.entries.length

def insert (p : Pending C) : Except Fault (Table C) :=
  if t.contains p.id then .error (.duplicateQueryId p.id)
  else .ok { t with entries := (p.id, p) :: t.entries }

def update (id : QueryId) (p : Pending C) : Table C :=
  { t with entries := t.entries.map fun e => if e.1 = id then (id, p) else e }

def remove (id : QueryId) : Table C :=
  { t with entries := t.entries.filter (·.1 ≠ id) }

/-- How many draws are in vain before one gives an id that is not in use. -/
def vainDraws? : Option {n // t.contains (t.ids.ahead n) = false} :=
  let draw n : Option (Nat ⊕ Option {n // t.contains (t.ids.ahead n) = false}) :=
    some (if h : t.contains (t.ids.ahead n) = false then .inr (some ⟨n, h⟩) else .inl (n + 1))
  (repeatM draw 0).join

/-- Draws ids until one is not in use; none if that never ends. -/
def allocate : Option (QueryId × Table C) :=
  t.vainDraws?.map fun ⟨n, _⟩ => (t.ids.ahead n, { t with ids := t.ids.advance (n + 1) })

/-- Changes the connection of a pending query; whether it has one. -/
def mapConnection (id : QueryId) (f : C → C) : Bool × Table C :=
  match t.find? id with
  | some p => (p.origin.connection?.isSome, t.update id { p with origin := p.origin.map f })
  | none => (false, t)

end Table

structure Effects (C : Type) where
  sent : List Request
  /-- Connections closed. -/
  dropped : List C
  /-- Messages that went through admission. -/
  judged : List Bytes
  encoded : List EncoderCall
  notices : List Notice

namespace Effects

def none {C : Type} : Effects C := ⟨[], [], [], [], []⟩

end Effects

structure Engine (C : Type) where
  table : Table C
  setting : Setting

namespace Engine

variable {C : Type} (e : Engine C)

def commit (id : QueryId) (p : Pending C) (t : Turn C) :
    Except Fault Outcome × Engine C × Effects C :=
  match t.entry with
  | some p => (t.outcome, { e with table := e.table.update id p },
      ⟨t.sent, [], t.judged, t.encoded, t.notices⟩)
  | none => (t.outcome, { e with table := e.table.remove id },
      ⟨t.sent, p.origin.connection?.toList, t.judged, t.encoded, t.notices⟩)

def replaceBlocklist (blocklist : Blocklist) : Engine C :=
  { e with setting := { e.setting with policy := { e.setting.policy with blocklist } } }

/-- A datagram is a whole message; its query starts with admission. It is dropped if there
is no room for it. None if no id is found for it. -/
def udpReceived (host : Host) (listener : Nat) (peer : SocketAddress) (datagram : Bytes) :
    Option (Except Fault Outcome × Engine C × Effects C) :=
  match e.table.allocate with
  | none => none
  | some (id, table) =>
    let dropped (client : Option SocketAddress) (fault : Fault) :=
      some (.ok .released, { e with table }, ⟨[], [], [], [], [.datagramDropped client fault]⟩)
    match Pending.ofDatagram host.memory id listener peer datagram with
    | .error fault => dropped (some peer) fault
    | .ok p =>
      match table.insert p with
      | .error fault => dropped none fault
      | .ok table => some ({ e with table }.commit id p (p.judge e.setting host))

/-- A new connection is read from first. None if no id is found for it. -/
def tcpAccepted (memory : Memory) (peer : SocketAddress) (conn : C) :
    Option (Except Fault QueryId × Engine C × Effects C) :=
  match e.table.allocate with
  | none => none
  | some (id, table) =>
    let inserted := do
      let buffer ← WireBuffer.ofCapacity (memory .query) e.setting.tcpInitialBuffer
      table.insert (.ofConnection id peer conn buffer)
    match inserted with
    | .error fault => some (.error fault, { e with table }, ⟨[], [conn], [], [], []⟩)
    | .ok table => some (.ok id, { e with table }, .none)

/-- How much the connection may read next; none when it is not to read. -/
def tcpReadWindow (id : QueryId) : Option Nat :=
  match e.table.find? id with
  | some p => if p.stage.isReading then some p.query.remaining else none
  | none => none

/-- The part of the framed answer that is not written yet. -/
def tcpPendingWrite (id : QueryId) : Option Bytes :=
  match e.table.find? id with
  | some p => if p.stage = .writing then some p.answer.current else none
  | none => none

def tcpReceived (host : Host) (id : QueryId) (chunk : Bytes) :
    Except Fault Outcome × Engine C × Effects C :=
  match e.table.find? id with
  | none => (.ok .released, e, .none)
  | some p => e.commit id p (p.received e.setting host chunk)

def tcpWrote (id : QueryId) (count : Nat) : Except Fault Outcome × Engine C × Effects C :=
  match e.table.find? id with
  | none => (.ok .released, e, .none)
  | some p => e.commit id p (p.wrote count)

/-- Fragments for queries that await none are reported and ignored. -/
def backendAnswer (memory : Memory) (f : Fragment) : Except Fault Outcome × Engine C × Effects C :=
  match e.table.find? f.id with
  | none => (.ok .waiting, e, ⟨[], [], [], [], [.unknownQuery f.id]⟩)
  | some p => e.commit f.id p (p.answered e.setting memory f)

def release (id : QueryId) : Bool × Engine C × Effects C :=
  match e.table.find? id with
  | none => (false, e, .none)
  | some p =>
    (true, { e with table := e.table.remove id },
      ⟨[], p.origin.connection?.toList, [], [], []⟩)

def expire (id : QueryId) : Bool × Engine C × Effects C := e.release id

def mapConnection (id : QueryId) (f : C → C) : Bool × Engine C :=
  let (found, table) := e.table.mapConnection id f
  (found, { e with table })

end Engine

inductive Operation (C : Type)
  | udpReceived (listener : Nat) (peer : SocketAddress) (datagram : Bytes)
  | tcpAccepted (peer : SocketAddress) (conn : C)
  | tcpReceived (id : QueryId) (chunk : Bytes)
  | tcpWrote (id : QueryId) (count : Nat)
  | backendAnswer (fragment : Fragment)
  | expire (id : QueryId)
  | release (id : QueryId)
  | replaceBlocklist (blocklist : Blocklist)
  | mapConnection (id : QueryId) (f : C → C)

inductive Result
  | outcome (outcome : Except Fault Outcome)
  | accepted (id : Except Fault QueryId)
  /-- Whether there was a query to end. -/
  | ended (found : Bool)
  | replaced
  /-- Whether there was a connection to change. -/
  | mapped (found : Bool)

/-- None if the operation never ends. -/
def Engine.perform {C : Type} (e : Engine C) (host : Host) :
    Operation C → Option (Result × Engine C × Effects C)
  | .udpReceived listener peer datagram =>
    (e.udpReceived host listener peer datagram).map fun (o, e) => (.outcome o, e)
  | .tcpAccepted peer conn =>
    (e.tcpAccepted host.memory peer conn).map fun (id, e) => (.accepted id, e)
  | .tcpReceived id chunk => let (o, e) := e.tcpReceived host id chunk; some (.outcome o, e)
  | .tcpWrote id count => let (o, e) := e.tcpWrote id count; some (.outcome o, e)
  | .backendAnswer fragment =>
    let (o, e) := e.backendAnswer host.memory fragment
    some (.outcome o, e)
  | .expire id => let (found, e) := e.expire id; some (.ended found, e)
  | .release id => let (found, e) := e.release id; some (.ended found, e)
  | .replaceBlocklist blocklist => some (.replaced, e.replaceBlocklist blocklist, .none)
  | .mapConnection id f => let (found, e) := e.mapConnection id f; some (.mapped found, e, .none)

end ResolverGate
