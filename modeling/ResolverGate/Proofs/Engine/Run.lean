import Mathlib.Data.List.Induction
import ResolverGate.Answer.Standard
import ResolverGate.Proofs.Engine.Fate
import ResolverGate.Proofs.Engine.Table

/-! # Steps and runs

All that one operation can do to the engine, and runs of operations, each of
which starts where the last one ended. An operation changes one entry of the
table at most, and of the setting only the blocklist.
-/

namespace ResolverGate

variable {C : Type}

namespace Operation

def target? : Operation C → Option QueryId
  | .tcpReceived id _ => some id
  | .tcpWrote id _ => some id
  | .backendAnswer f => some f.id
  | .expire id => some id
  | .release id => some id
  | .mapConnection id _ => some id
  | _ => none

def turn (s : Setting) (host : Host) (p : Pending C) : Operation C → Turn C
  | .tcpReceived _ chunk => p.received s host chunk
  | .tcpWrote _ count => p.wrote count
  | .backendAnswer f => p.answered s host.memory f
  | .mapConnection _ f => .keep { p with origin := p.origin.map f } .waiting
  | _ => .gone

def result (t : Turn C) : Operation C → Result
  | .expire _ => .ended true
  | .release _ => .ended true
  | .mapConnection _ _ => .mapped (t.entry.any fun p => p.origin.connection?.isSome)
  | _ => .outcome t.outcome

def missed : Operation C → Result × List Notice
  | .backendAnswer f => (.outcome (.ok .waiting), [.unknownQuery f.id])
  | .expire _ => (.ended false, [])
  | .release _ => (.ended false, [])
  | .mapConnection _ _ => (.mapped false, [])
  | _ => (.outcome (.ok .released), [])

def octets : Operation C → Bytes
  | .tcpReceived _ chunk => chunk
  | .backendAnswer f => f.data
  | _ => []

end Operation

def Turn.effects (t : Turn C) (p : Pending C) : Effects C where
  sent := t.sent
  dropped := if t.entry.isSome then [] else p.origin.connection?.toList
  judged := t.judged
  encoded := t.encoded
  notices := t.notices

namespace Engine

variable {e : Engine C} {id id' : QueryId} {p : Pending C} {t : Turn C} {op : Operation C}
  {host : Host} {table : Table C}

theorem tcpReadWindow_of_reading (hp : e.table.find? id = some p) (hs : p.stage.isReading = true) :
    e.tcpReadWindow id = some p.query.remaining := by
  simp [tcpReadWindow, hp, hs]

theorem tcpPendingWrite_of_writing (hp : e.table.find? id = some p) (hs : p.stage = .writing) :
    e.tcpPendingWrite id = some p.answer.current := by
  simp [tcpPendingWrite, hp, hs]

def fresh (ids : IdSource) (setting : Setting) : Engine C := ⟨.empty ids, setting⟩

theorem distinct_fresh {ids : IdSource} {setting : Setting} :
    (fresh ids setting : Engine C).table.Distinct :=
  List.nodup_nil

theorem commit_eq : e.commit id p t =
    (t.outcome, { e with table := e.table.put id t.entry }, t.effects p) := by
  unfold commit Turn.effects
  split <;> next h => simp [h, Table.put]

theorem commit_outcome : (e.commit id p t).1 = t.outcome := by
  rw [commit_eq]

theorem commit_setting : (e.commit id p t).2.1.setting = e.setting := by
  rw [commit_eq]

theorem commit_ids : (e.commit id p t).2.1.table.ids = e.table.ids := by
  rw [commit_eq]
  cases t.entry <;> rfl

theorem commit_effects : (e.commit id p t).2.2 = t.effects p := by
  rw [commit_eq]

theorem find?_commit (h : e.table.contains id = true) :
    (e.commit id p t).2.1.table.find? id' = if id' = id then t.entry else e.table.find? id' := by
  rw [commit_eq]
  exact Table.find?_put h

theorem distinct_commit (h : e.table.Distinct) : (e.commit id p t).2.1.table.Distinct := by
  rw [commit_eq]
  exact h.put id t.entry

theorem perform_found (ht : op.target? = some id) (hp : e.table.find? id = some p) :
    e.perform host op =
      some (op.result (op.turn e.setting host p),
        (e.commit id p (op.turn e.setting host p)).2) := by
  cases op with
  | udpReceived => simp [Operation.target?] at ht
  | tcpAccepted => simp [Operation.target?] at ht
  | replaceBlocklist => simp [Operation.target?] at ht
  | tcpReceived id' chunk =>
    obtain rfl : id' = id := Option.some.inj ht
    simp [perform, tcpReceived, hp, Operation.turn, Operation.result, commit_outcome]
  | tcpWrote id' count =>
    obtain rfl : id' = id := Option.some.inj ht
    simp [perform, tcpWrote, hp, Operation.turn, Operation.result, commit_outcome]
  | backendAnswer f =>
    obtain rfl : f.id = id := Option.some.inj ht
    simp [perform, backendAnswer, hp, Operation.turn, Operation.result,
      commit_outcome]
  | expire id' =>
    obtain rfl : id' = id := Option.some.inj ht
    simp [perform, expire, release, hp, Operation.turn, Operation.result, commit, Turn.gone]
  | release id' =>
    obtain rfl : id' = id := Option.some.inj ht
    simp [perform, release, hp, Operation.turn, Operation.result, commit, Turn.gone]
  | mapConnection id' f =>
    obtain rfl : id' = id := Option.some.inj ht
    have ho : (p.origin.map f).connection?.isSome = p.origin.connection?.isSome := by
      cases p.origin <;> rfl
    simp [perform, mapConnection, Table.mapConnection, hp, Operation.turn, Operation.result, commit,
      Turn.keep, Effects.none, ho]

theorem perform_missed (ht : op.target? = some id) (hp : e.table.find? id = none) :
    e.perform host op = some (op.missed.1, e, ⟨[], [], [], [], op.missed.2⟩) := by
  cases op with
  | udpReceived => simp [Operation.target?] at ht
  | tcpAccepted => simp [Operation.target?] at ht
  | replaceBlocklist => simp [Operation.target?] at ht
  | tcpReceived id' chunk =>
    obtain rfl : id' = id := Option.some.inj ht
    simp [perform, tcpReceived, hp, Operation.missed, Effects.none]
  | tcpWrote id' count =>
    obtain rfl : id' = id := Option.some.inj ht
    simp [perform, tcpWrote, hp, Operation.missed, Effects.none]
  | backendAnswer f =>
    obtain rfl : f.id = id := Option.some.inj ht
    simp [perform, backendAnswer, hp, Operation.missed]
  | expire id' =>
    obtain rfl : id' = id := Option.some.inj ht
    simp [perform, expire, release, hp, Operation.missed, Effects.none]
  | release id' =>
    obtain rfl : id' = id := Option.some.inj ht
    simp [perform, release, hp, Operation.missed, Effects.none]
  | mapConnection id' f =>
    obtain rfl : id' = id := Option.some.inj ht
    simp [perform, mapConnection, Table.mapConnection, hp, Operation.missed, Effects.none]

def begun (e : Engine C) (table : Table C) (p : Pending C) : Engine C :=
  { e with table := { table with entries := (p.id, p) :: table.entries } }

section Begin

variable {listener : Nat} {peer : SocketAddress} {m : Bytes}

theorem perform_datagram (ha : e.table.allocate = some (id, table))
    (room : host.memory.holds m = true) :
    e.perform host (.udpReceived listener peer m) =
      let p := Pending.datagram id listener peer m
      let t := p.judge e.setting host
      some (.outcome t.outcome, ((e.begun table p).commit id p t).2) := by
  obtain ⟨n, -, rfl, hfree⟩ := Table.exists_of_allocate ha
  have hi : (e.table.drawn (n + 1)).insert (Pending.datagram id listener peer m) = .ok _ :=
    Table.insert_of_absent (Table.contains_eq_false_iff.mp hfree)
  simp only [perform, udpReceived, ha, Pending.ofDatagram_eq, room, if_true, hi, Option.map_some,
    begun]
  rw [← commit_outcome]

theorem perform_dropped (ha : e.table.allocate = some (id, table))
    (room : host.memory.holds m = false) :
    e.perform host (.udpReceived listener peer m) = some (.outcome (.ok .released),
      { e with table },
      ⟨[], [], [], [], [.datagramDropped (some peer) (.outOfMemory m.length)]⟩) := by
  simp [perform, udpReceived, ha, Pending.ofDatagram_eq, room]

theorem perform_connection {conn : C} (ha : e.table.allocate = some (id, table)) :
    e.perform host (.tcpAccepted peer conn) =
      match WireBuffer.ofCapacity (host.memory .query) e.setting.tcpInitialBuffer with
      | .ok buffer => some (.accepted (.ok id),
          e.begun table (.ofConnection id peer conn buffer), .none)
      | .error fault => some (.accepted (.error fault), { e with table },
          ⟨[], [conn], [], [], []⟩) := by
  obtain ⟨n, -, rfl, hfree⟩ := Table.exists_of_allocate ha
  simp only [perform, tcpAccepted, ha]
  cases WireBuffer.ofCapacity (host.memory .query) e.setting.tcpInitialBuffer with
  | error fault => rfl
  | ok buffer =>
    have hi : (e.table.drawn (n + 1)).insert (Pending.ofConnection id peer conn buffer) = .ok _ :=
      Table.insert_of_absent (Table.contains_eq_false_iff.mp hfree)
    simp only [bind, Except.bind, hi, Option.map_some, begun]

end Begin

theorem find?_begun (hid : p.id = id) (ht : ∀ id, table.find? id = e.table.find? id) :
    (e.begun table p).table.find? id' = if id' = id then some p else e.table.find? id' := by
  subst hid
  by_cases h : id' = p.id
  · simp [begun, Table.find?, h]
  · have hf : (id' == p.id) = false := by simpa using h
    simp only [begun, Table.find?, List.lookup_cons, hf, h, if_false]
    exact ht id'

theorem distinct_begun (hd : e.table.Distinct) (hp : e.table.find? p.id = none) (n : Nat) :
    (e.begun (e.table.drawn n) p).table.Distinct := by
  have drawn : (e.table.drawn n).find? p.id = none := hp
  exact (hd.drawn n).insert (Table.insert_of_absent drawn)

end Engine

/-- One operation, with what it met and all that it did. -/
structure Step (C : Type) where
  before : Engine C
  host : Host
  operation : Operation C
  result : Result
  after : Engine C
  effects : Effects C
  performed : before.perform host operation = some (result, after, effects)

namespace Step

/-- All that a step can do. -/
inductive Shape (s : Step C) : Prop
  /-- A datagram begins a query, which has its first turn. -/
  | datagram {listener : Nat} {peer : SocketAddress} {m : Bytes} {id : QueryId} {t : Turn C}
      (op : s.operation = .udpReceived listener peer m)
      (room : s.host.memory.holds m = true)
      (free : s.before.table.find? id = none)
      (turn : t = (Pending.datagram id listener peer m).judge s.before.setting s.host)
      (result : s.result = .outcome t.outcome)
      (found : ∀ id', s.after.table.find? id' =
        if id' = id then t.entry else s.before.table.find? id')
      (setting : s.after.setting = s.before.setting)
      (effects : s.effects = t.effects (.datagram id listener peer m))
      (drawn : ∃ table, s.before.table.allocate = some (id, table))
  /-- There is no room for a datagram. -/
  | dropped {listener : Nat} {peer : SocketAddress} {m : Bytes}
      (op : s.operation = .udpReceived listener peer m)
      (room : s.host.memory.holds m = false)
      (result : s.result = .outcome (.ok .released))
      (found : ∀ id, s.after.table.find? id = s.before.table.find? id)
      (setting : s.after.setting = s.before.setting)
      (effects : s.effects =
        ⟨[], [], [], [], [.datagramDropped (some peer) (.outOfMemory m.length)]⟩)
  /-- A connection begins a query, which is to be read. -/
  | connection {peer : SocketAddress} {conn : C} {id : QueryId} {buffer : WireBuffer}
      (op : s.operation = .tcpAccepted peer conn)
      (free : s.before.table.find? id = none)
      (room : WireBuffer.ofCapacity (s.host.memory .query) s.before.setting.tcpInitialBuffer =
        .ok buffer)
      (result : s.result = .accepted (.ok id))
      (found : ∀ id', s.after.table.find? id' =
        if id' = id then some (.ofConnection id peer conn buffer) else s.before.table.find? id')
      (setting : s.after.setting = s.before.setting)
      (effects : s.effects = .none)
  /-- There is no room to read a connection. -/
  | refused {peer : SocketAddress} {conn : C} {fault : Fault}
      (op : s.operation = .tcpAccepted peer conn)
      (result : s.result = .accepted (.error fault))
      (found : ∀ id, s.after.table.find? id = s.before.table.find? id)
      (setting : s.after.setting = s.before.setting)
      (effects : s.effects = ⟨[], [conn], [], [], []⟩)
  /-- The query under the id has a turn. -/
  | turned {id : QueryId} {p : Pending C} {t : Turn C}
      (target : s.operation.target? = some id)
      (present : s.before.table.find? id = some p)
      (turn : t = s.operation.turn s.before.setting s.host p)
      (result : s.result = s.operation.result t)
      (found : ∀ id', s.after.table.find? id' =
        if id' = id then t.entry else s.before.table.find? id')
      (setting : s.after.setting = s.before.setting)
      (effects : s.effects = t.effects p)
  /-- There is no query under the id. -/
  | missed {id : QueryId}
      (target : s.operation.target? = some id)
      (absent : s.before.table.find? id = none)
      (result : s.result = s.operation.missed.1)
      (after : s.after = s.before)
      (effects : s.effects = ⟨[], [], [], [], s.operation.missed.2⟩)
  | replaced {blocklist : Blocklist}
      (op : s.operation = .replaceBlocklist blocklist)
      (result : s.result = .replaced)
      (after : s.after = s.before.replaceBlocklist blocklist)
      (effects : s.effects = .none)

variable {s : Step C} {id : QueryId} {p : Pending C}

/-- What a step does to the query that it is given the id of. -/
theorem turned (ht : s.operation.target? = some id) (hp : s.before.table.find? id = some p) :
    ∃ t, t = s.operation.turn s.before.setting s.host p ∧
      s.result = s.operation.result t ∧ s.after = (s.before.commit id p t).2.1 ∧
      s.effects = t.effects p ∧ ∀ id', s.after.table.find? id' =
        if id' = id then t.entry else s.before.table.find? id' := by
  have hs := s.performed
  rw [Engine.perform_found ht hp] at hs
  simp only [Option.some.injEq, Prod.ext_iff] at hs
  obtain ⟨hr, he, hx⟩ := hs
  refine ⟨_, rfl, hr.symm, he.symm, hx ▸ Engine.commit_effects, fun id' => ?_⟩
  rw [← he, Engine.find?_commit (Table.contains_iff.mpr ⟨p, hp⟩)]

theorem answered {f : Fragment} (op : s.operation = .backendAnswer f) (hid : f.id = id)
    (hp : s.before.table.find? id = some p) :
    ∃ t, t = p.answered s.before.setting s.host.memory f ∧ s.result = .outcome t.outcome ∧
      s.after = (s.before.commit id p t).2.1 ∧ s.effects = t.effects p ∧
      s.after.table.find? id = t.entry := by
  have ht : s.operation.target? = some id := by rw [op, Operation.target?, hid]
  obtain ⟨t, turn, result, after, effects, found⟩ := s.turned ht hp
  rw [op] at turn result
  exact ⟨t, turn, result, after, effects, (found id).trans (if_pos rfl)⟩

theorem missed (ht : s.operation.target? = some id) (hp : s.before.table.find? id = none) :
    s.result = s.operation.missed.1 ∧ s.after = s.before ∧
      s.effects = ⟨[], [], [], [], s.operation.missed.2⟩ := by
  have hs := s.performed
  rw [Engine.perform_missed ht hp] at hs
  simp only [Option.some.injEq, Prod.mk.injEq] at hs
  exact ⟨hs.1.symm, hs.2.1.symm, hs.2.2.symm⟩

theorem shape_of_target (ht : s.operation.target? = some id) : s.Shape := by
  cases hp : s.before.table.find? id with
  | none =>
    obtain ⟨result, after, effects⟩ := s.missed ht hp
    exact .missed ht hp result after effects
  | some p =>
    obtain ⟨t, turn, result, after, effects, found⟩ := s.turned ht hp
    exact .turned ht hp turn result found (after ▸ Engine.commit_setting) effects

theorem begun_datagram {listener : Nat} {peer : SocketAddress} {m : Bytes}
    (op : s.operation = .udpReceived listener peer m) :
    ∃ (id : QueryId) (n : Nat), s.before.table.find? id = none ∧
      s.before.table.allocate = some (id, s.before.table.drawn n) ∧
      ((s.host.memory.holds m = true ∧ ∃ (p : Pending C) (t : Turn C),
          p = .datagram id listener peer m ∧
          t = p.judge s.before.setting s.host ∧ s.result = .outcome t.outcome ∧
          s.after = ((s.before.begun (s.before.table.drawn n) p).commit id p t).2.1 ∧
          s.effects = t.effects p) ∨
        s.host.memory.holds m = false ∧ s.result = .outcome (.ok .released) ∧
          s.after = { s.before with table := s.before.table.drawn n } ∧
          s.effects =
            ⟨[], [], [], [], [.datagramDropped (some peer) (.outOfMemory m.length)]⟩) := by
  have hs := s.performed
  rw [op] at hs
  cases ha : s.before.table.allocate with
  | none => simp [Engine.perform, Engine.udpReceived, ha] at hs
  | some r =>
  obtain ⟨id, table⟩ := r
  obtain ⟨n, -, rfl, free⟩ := Table.exists_of_allocate ha
  refine ⟨id, n + 1, Table.contains_eq_false_iff.mp free, rfl, ?_⟩
  cases room : s.host.memory.holds m with
  | true =>
    rw [Engine.perform_datagram ha room] at hs
    simp only [Option.some.injEq, Prod.ext_iff] at hs
    obtain ⟨result, after, effects⟩ := hs
    exact .inl ⟨rfl, _, _, rfl, rfl, result.symm, after.symm,
      effects.symm.trans Engine.commit_effects⟩
  | false =>
    rw [Engine.perform_dropped ha room] at hs
    simp only [Option.some.injEq, Prod.mk.injEq] at hs
    exact .inr ⟨rfl, hs.1.symm, hs.2.1.symm, hs.2.2.symm⟩

theorem begun_connection {peer : SocketAddress} {conn : C}
    (op : s.operation = .tcpAccepted peer conn) :
    ∃ (id : QueryId) (n : Nat), s.before.table.find? id = none ∧
      match WireBuffer.ofCapacity (s.host.memory .query) s.before.setting.tcpInitialBuffer with
      | .ok buffer => s.result = .accepted (.ok id) ∧
          s.after = s.before.begun (s.before.table.drawn n) (.ofConnection id peer conn buffer) ∧
          s.effects = .none
      | .error fault => s.result = .accepted (.error fault) ∧
          s.after = { s.before with table := s.before.table.drawn n } ∧
          s.effects = ⟨[], [conn], [], [], []⟩ := by
  have hs := s.performed
  rw [op] at hs
  cases ha : s.before.table.allocate with
  | none => simp [Engine.perform, Engine.tcpAccepted, ha] at hs
  | some r =>
    obtain ⟨id, table⟩ := r
    obtain ⟨n, -, rfl, free⟩ := Table.exists_of_allocate ha
    rw [Engine.perform_connection ha] at hs
    refine ⟨id, n + 1, Table.contains_eq_false_iff.mp free, ?_⟩
    cases hb : WireBuffer.ofCapacity (s.host.memory .query) s.before.setting.tcpInitialBuffer with
    | ok buffer =>
      simp only [hb, Option.some.injEq, Prod.mk.injEq] at hs
      exact ⟨hs.1.symm, hs.2.1.symm, hs.2.2.symm⟩
    | error fault =>
      simp only [hb, Option.some.injEq, Prod.mk.injEq] at hs
      exact ⟨hs.1.symm, hs.2.1.symm, hs.2.2.symm⟩

theorem shape_of_datagram {listener : Nat} {peer : SocketAddress} {m : Bytes}
    (op : s.operation = .udpReceived listener peer m) : s.Shape := by
  obtain ⟨id, n, free, drawn, ⟨room, p, t, rfl, turn, result, after, effects⟩ |
    ⟨room, result, after, effects⟩⟩ := s.begun_datagram op
  swap
  · exact .dropped op room result (fun id => after ▸ rfl) (after ▸ rfl) effects
  let p : Pending C := .datagram id listener peer m
  have begun (id') : (s.before.begun (s.before.table.drawn n) p).table.find? id' =
      if id' = id then some p else s.before.table.find? id' :=
    Engine.find?_begun rfl fun _ => Table.find?_drawn n
  have present : (s.before.begun (s.before.table.drawn n) p).table.contains id = true :=
    Table.contains_iff.mpr ⟨p, (begun id).trans (if_pos rfl)⟩
  refine .datagram op room free turn result (fun id' => ?_) ?_ effects ⟨_, drawn⟩
  · rw [after, Engine.find?_commit present]
    split
    · rfl
    · next h => rw [begun, if_neg h]
  · rw [after]
    exact Engine.commit_setting

theorem shape_of_connection {peer : SocketAddress} {conn : C}
    (op : s.operation = .tcpAccepted peer conn) : s.Shape := by
  obtain ⟨id, n, free, h⟩ := s.begun_connection op
  cases hb : WireBuffer.ofCapacity (s.host.memory .query) s.before.setting.tcpInitialBuffer with
  | ok buffer =>
    rw [hb] at h
    obtain ⟨result, after, effects⟩ := h
    refine .connection op free hb result (fun id' => ?_) (after ▸ rfl) effects
    rw [after]
    exact Engine.find?_begun rfl fun _ => Table.find?_drawn n
  | error fault =>
    rw [hb] at h
    obtain ⟨result, after, effects⟩ := h
    exact .refused op result (fun id => after ▸ rfl) (after ▸ rfl) effects

theorem shape (s : Step C) : s.Shape := by
  cases hop : s.operation with
  | udpReceived => exact shape_of_datagram hop
  | tcpAccepted => exact shape_of_connection hop
  | tcpReceived id => exact shape_of_target (hop ▸ rfl : _ = some id)
  | tcpWrote id => exact shape_of_target (hop ▸ rfl : _ = some id)
  | backendAnswer f => exact shape_of_target (hop ▸ rfl : _ = some f.id)
  | expire id => exact shape_of_target (hop ▸ rfl : _ = some id)
  | release id => exact shape_of_target (hop ▸ rfl : _ = some id)
  | mapConnection id => exact shape_of_target (hop ▸ rfl : _ = some id)
  | replaceBlocklist blocklist =>
    have hs := s.performed
    simp only [hop, Engine.perform, Option.some.injEq, Prod.mk.injEq] at hs
    exact .replaced hop hs.1.symm hs.2.1.symm hs.2.2.symm

theorem received {listener : Nat} {peer : SocketAddress} {m : Bytes}
    (op : s.operation = .udpReceived listener peer m) :
    (s.host.memory.holds m = true ∧
      ∃ (id : QueryId) (t : Turn C), s.before.table.find? id = none ∧
      t = (Pending.datagram id listener peer m).judge s.before.setting s.host ∧
      s.result = .outcome t.outcome ∧
      (∀ id', s.after.table.find? id' =
        if id' = id then t.entry else s.before.table.find? id') ∧
      s.effects = t.effects (.datagram id listener peer m)) ∨
    s.host.memory.holds m = false ∧ s.result = .outcome (.ok .released) ∧
      (∀ id, s.after.table.find? id = s.before.table.find? id) ∧
      s.effects =
        ⟨[], [], [], [], [.datagramDropped (some peer) (.outOfMemory m.length)]⟩ := by
  cases s.shape with
  | @datagram listener' peer' m' id t op' room free turn result found _ effects =>
    obtain ⟨rfl, rfl, rfl⟩ : listener = listener' ∧ peer = peer' ∧ m = m' := by
      simpa using op.symm.trans op'
    exact .inl ⟨room, id, t, free, turn, result, found, effects⟩
  | @dropped listener' peer' m' op' room result found _ effects =>
    obtain ⟨rfl, rfl, rfl⟩ : listener = listener' ∧ peer = peer' ∧ m = m' := by
      simpa using op.symm.trans op'
    exact .inr ⟨room, result, found, effects⟩
  | connection op' => simp [op] at op'
  | refused op' => simp [op] at op'
  | turned target => simp [op, Operation.target?] at target
  | missed target => simp [op, Operation.target?] at target
  | replaced op' => simp [op] at op'

theorem accepted (h : s.result = .accepted (.ok id)) :
    s.before.table.find? id = none ∧ ∃ (peer : SocketAddress) (conn : C) (buffer : WireBuffer),
      WireBuffer.ofCapacity (s.host.memory .query) s.before.setting.tcpInitialBuffer =
        .ok buffer ∧
        s.after.table.find? id = some (.ofConnection id peer conn buffer) := by
  cases s.shape with
  | @connection peer conn id' buffer op free room result found =>
    obtain rfl : id = id' := by simpa using h.symm.trans result
    exact ⟨free, peer, conn, buffer, room, by rw [found, if_pos rfl]⟩
  | datagram _ _ _ _ result => simp [h] at result
  | dropped _ _ result => simp [h] at result
  | refused _ result => simp [h] at result
  | replaced _ result => simp [h] at result
  | turned _ _ _ result =>
    cases hop : s.operation <;> simp [hop, h, Operation.result] at result
  | missed _ _ result =>
    cases hop : s.operation <;> simp [hop, h, Operation.missed] at result

theorem distinct (s : Step C) (hd : s.before.table.Distinct) : s.after.table.Distinct := by
  have target {id : QueryId} (ht : s.operation.target? = some id) : s.after.table.Distinct := by
    cases hp : s.before.table.find? id with
    | none =>
      obtain ⟨-, after, -⟩ := s.missed ht hp
      exact after ▸ hd
    | some p =>
      obtain ⟨t, -, -, after, -⟩ := s.turned ht hp
      exact after ▸ Engine.distinct_commit hd
  cases hop : s.operation with
  | udpReceived listener peer m =>
    obtain ⟨id, n, free, -, ⟨-, p, t, rfl, -, -, after, -⟩ | ⟨-, -, after, -⟩⟩ :=
      s.begun_datagram hop
    · exact after ▸ Engine.distinct_commit (Engine.distinct_begun hd free n)
    · exact after ▸ hd.drawn n
  | tcpAccepted peer conn =>
    obtain ⟨id, n, free, h⟩ := s.begun_connection hop
    split at h
    · exact h.2.1 ▸ Engine.distinct_begun hd free n
    · exact h.2.1 ▸ hd.drawn n
  | replaceBlocklist =>
    have hs := s.performed
    simp only [hop, Engine.perform, Option.some.injEq, Prod.ext_iff] at hs
    exact hs.2.1 ▸ hd
  | tcpReceived id => exact target (hop ▸ rfl : _ = some id)
  | tcpWrote id => exact target (hop ▸ rfl : _ = some id)
  | backendAnswer f => exact target (hop ▸ rfl : _ = some f.id)
  | expire id => exact target (hop ▸ rfl : _ = some id)
  | release id => exact target (hop ▸ rfl : _ = some id)
  | mapConnection id => exact target (hop ▸ rfl : _ = some id)

def brings (s : Step C) (id : QueryId) : Bytes :=
  if s.operation.target? = some id then s.operation.octets else []

def Creates (s : Step C) (id : QueryId) : Prop :=
  s.before.table.find? id = none ∧ s.after.table.contains id = true

theorem not_creates_of_target (ht : s.operation.target? = some id) : ¬ s.Creates id := by
  rintro ⟨absent, present⟩
  obtain ⟨-, after, -⟩ := s.missed ht absent
  simp [after, Table.contains, absent] at present

theorem exists_of_target (e : Engine C) (host : Host) {op : Operation C}
    (ht : op.target? = some id) :
    ∃ s : Step C, s.before = e ∧ s.host = host ∧ s.operation = op := by
  cases hp : e.table.find? id with
  | none => exact ⟨⟨e, host, op, _, _, _, Engine.perform_missed ht hp⟩, rfl, rfl, rfl⟩
  | some p => exact ⟨⟨e, host, op, _, _, _, Engine.perform_found ht hp⟩, rfl, rfl, rfl⟩

/-- An entry stays as it is until an operation is given its id. -/
theorem find?_of_not_target (ht : s.operation.target? ≠ some id)
    (hp : s.before.table.find? id = some p) : s.after.table.find? id = some p := by
  cases s.shape with
  | datagram _ _ free _ _ found =>
    rw [found, if_neg (by rintro rfl; simp [free] at hp), hp]
  | dropped _ _ _ found => rw [found, hp]
  | connection _ free _ _ found =>
    rw [found, if_neg (by rintro rfl; simp [free] at hp), hp]
  | refused _ _ found => rw [found, hp]
  | turned target _ _ _ found =>
    rw [found, if_neg (by rintro rfl; exact ht target), hp]
  | missed _ _ _ after => rw [after, hp]
  | replaced _ _ after => rw [after]; exact hp

/-- A step changes what is there under one id at most, which is the one that it is given. -/
theorem confined (s : Step C) : ∃ k, (∀ id, s.operation.target? = some id → id = k) ∧
    ∀ id, id ≠ k → s.after.table.find? id = s.before.table.find? id := by
  have begun {op : Operation C} (k : QueryId) (h : op.target? = none) :
      ∀ id, op.target? = some id → id = k := by
    simp [h]
  cases s.shape with
  | @datagram _ _ _ k _ op _ _ _ _ found =>
    exact ⟨k, op ▸ begun k rfl, fun id hid => (found id).trans (if_neg hid)⟩
  | dropped op _ _ found => exact ⟨⟨0⟩, op ▸ begun _ rfl, fun id _ => found id⟩
  | @connection _ _ k _ op _ _ _ found =>
    exact ⟨k, op ▸ begun k rfl, fun id hid => (found id).trans (if_neg hid)⟩
  | refused op _ found => exact ⟨⟨0⟩, op ▸ begun _ rfl, fun id _ => found id⟩
  | replaced op _ after => exact ⟨⟨0⟩, op ▸ begun _ rfl, fun id _ => by rw [after]; rfl⟩
  | @turned k _ _ target _ _ _ found =>
    exact ⟨k, fun id own => Option.some.inj (own.symm.trans target),
      fun id hid => (found id).trans (if_neg hid)⟩
  | @missed k target _ _ after =>
    exact ⟨k, fun id own => Option.some.inj (own.symm.trans target), fun id _ => by rw [after]⟩

/-- A step makes one entry at most. -/
theorem creates_unique {id' : QueryId} (h : s.Creates id) (h' : s.Creates id') : id = id' := by
  obtain ⟨k, -, others⟩ := s.confined
  have own {id : QueryId} (h : s.Creates id) : id = k := by
    by_contra hid
    obtain ⟨absent, present⟩ := h
    simp [Table.contains, others id hid, absent] at present
  exact (own h).trans (own h').symm

theorem find?_of_absent (hc : ¬ s.Creates id) (hp : s.before.table.find? id = none) :
    s.after.table.find? id = none :=
  Table.contains_eq_false_iff.mp (eq_false_of_ne_true fun h => hc ⟨hp, h⟩)

theorem setting_eq (s : Step C) :
    ∃ policy, s.after.setting = { s.before.setting with policy } := by
  cases s.shape with
  | datagram _ _ _ _ _ _ setting => exact ⟨_, setting⟩
  | dropped _ _ _ _ setting => exact ⟨_, setting⟩
  | connection _ _ _ _ _ setting => exact ⟨_, setting⟩
  | refused _ _ _ setting => exact ⟨_, setting⟩
  | turned _ _ _ _ _ setting => exact ⟨_, setting⟩
  | missed _ _ _ after => exact ⟨_, congrArg Engine.setting after⟩
  | replaced _ _ after => exact ⟨_, by rw [after]; rfl⟩

end Step

def delivered (steps : List (Step C)) (id : QueryId) : Bytes := steps.flatMap (·.brings id)

theorem delivered_snoc (steps : List (Step C)) (s : Step C) (id : QueryId) :
    delivered (steps ++ [s]) id = delivered steps id ++ s.brings id := by
  simp [delivered]

/-- The steps lead from the one engine to the other. -/
inductive Run (e : Engine C) : List (Step C) → Engine C → Prop
  | start : Run e [] e
  | next {steps : List (Step C)} {s : Step C} (run : Run e steps s.before) :
      Run e (steps ++ [s]) s.after

namespace Run

variable {e e' : Engine C} {steps pre post : List (Step C)} {s : Step C}

theorem snoc_inv (run : Run e (steps ++ [s]) e') : Run e steps s.before ∧ e' = s.after := by
  generalize h : steps ++ [s] = all at run
  cases run with
  | start => simp at h
  | next run =>
    obtain ⟨rfl, h⟩ := List.append_inj' h rfl
    obtain rfl : s = _ := by simpa using h
    exact ⟨run, rfl⟩

theorem nil_inv (run : Run e [] e') : e' = e := by
  generalize h : [] = all at run
  cases run with
  | start => rfl
  | next => simp at h

theorem uncons (run : Run e (s :: steps) e') : s.before = e ∧ Run s.after steps e' := by
  induction steps using List.reverseRecOn generalizing e' with
  | nil =>
    rw [← List.nil_append [s]] at run
    obtain ⟨first, rfl⟩ := run.snoc_inv
    exact ⟨first.nil_inv, .start⟩
  | append_singleton steps u ih =>
    rw [← List.cons_append] at run
    obtain ⟨first, rfl⟩ := run.snoc_inv
    obtain ⟨before, rest⟩ := ih first
    exact ⟨before, rest.next⟩

theorem append {e'' : Engine C} (run : Run e pre e') (rest : Run e' post e'') :
    Run e (pre ++ post) e'' := by
  induction rest with
  | start => rwa [List.append_nil]
  | next _ ih =>
    rw [← List.append_assoc]
    exact ih.next

theorem upTo (run : Run e (pre ++ s :: post) e') : Run e pre s.before := by
  induction post using List.reverseRecOn generalizing e' with
  | nil => exact run.snoc_inv.1
  | append_singleton post u ih =>
    have : pre ++ s :: (post ++ [u]) = (pre ++ s :: post) ++ [u] := by simp
    exact ih (this ▸ run).snoc_inv.1

theorem onFrom (run : Run e (pre ++ s :: post) e') : Run s.after post e' := by
  induction pre generalizing e with
  | nil => exact run.uncons.2
  | cons u pre ih => exact ih run.uncons.2

theorem before {j : Nat} (run : Run e steps e') (h : steps[j]? = some s) :
    Run e (steps.take j) s.before := by
  obtain ⟨hj, hs⟩ := List.getElem?_eq_some_iff.mp h
  have : steps = steps.take j ++ s :: steps.drop (j + 1) := by simp [← hs]
  exact (this ▸ run).upTo

theorem before_eq_after {j : Nat} {u : Step C} (run : Run e steps e') (hs : steps[j]? = some s)
    (hu : steps[j + 1]? = some u) : u.before = s.after := by
  have := run.before hu
  rw [List.take_add_one, hs, Option.toList_some] at this
  exact this.snoc_inv.2

theorem setting_eq (run : Run e steps e') :
    ∃ policy, e'.setting = { e.setting with policy } := by
  induction run with
  | start => exact ⟨_, rfl⟩
  | @next steps s run ih =>
    obtain ⟨policy, h⟩ := s.setting_eq
    obtain ⟨policy', h'⟩ := ih
    exact ⟨policy, by rw [h, h']⟩

theorem distinct (run : Run e steps e') (h : e.table.Distinct) : e'.table.Distinct := by
  induction run with
  | start => exact h
  | @next steps s run ih => exact s.distinct ih

theorem encoder_eq (run : Run e steps e') : e'.setting.encoder = e.setting.encoder := by
  obtain ⟨policy, h⟩ := run.setting_eq
  rw [h]

end Run

/-! ## A small engine -/

def Setting.small : Setting := ⟨2, true, ⟨.empty, false⟩, EncoderCall.layOut .standard⟩

def Host.plenty : Host := ⟨.allowing none, .plenty⟩

theorem Step.exists_answered (e : Engine S) (f : Fragment) :
    ∃ s : Step S, s.before = e ∧ s.host = .plenty ∧ s.operation = .backendAnswer f :=
  exists_of_target e .plenty rfl

theorem Step.memory_of_plenty {s : Step S} (plenty : s.host = .plenty) (room : Room) (n : Nat) :
    s.host.memory room n = true := by
  rw [plenty]
  rfl

def SocketAddress.loopback : SocketAddress := ⟨⟨.inet, [127, 0, 0, 1], rfl⟩, 53, 0⟩

def Engine.small : Engine Nat := .fresh (.ofQueue [] 7) .small

theorem Engine.allocate_small : small.table.allocate = some (⟨7⟩, small.table.drawn 1) :=
  Table.allocate_of_first (n := 0) (by simp) rfl

def Step.connect : Step Nat :=
  ⟨.small, .plenty, .tcpAccepted .loopback 5, _, _, _,
    Engine.perform_connection Engine.allocate_small⟩

def Step.ask : Step Nat :=
  ⟨.small, .plenty, .udpReceived 3 .loopback Query.smallMessage, _, _, _,
    Engine.perform_datagram Engine.allocate_small (by rfl)⟩

def Pending.asked : Pending Nat :=
  { Pending.datagram ⟨7⟩ 3 .loopback Query.smallMessage with
    stage := .forwarded
    parsed := some .small }

theorem Step.find?_ask : ask.after.table.find? ⟨7⟩ = some .asked := by
  refine (Engine.find?_commit (Table.contains_iff.mpr ⟨_, rfl⟩)).trans ?_
  rw [if_pos rfl, Pending.judge, Pending.datagram, Pending.start, WireBuffer.upToLimit]
  simp only [Engine.small, Engine.fresh, Setting.small, WireBuffer.ofBytes, List.take_length,
    Policy.judge_smallMessage]
  rfl

end ResolverGate
