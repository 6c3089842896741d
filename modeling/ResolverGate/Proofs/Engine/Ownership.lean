import ResolverGate.Proofs.Engine.History
import ResolverGate.Proofs.Engine.Routing

/-! # Connections are owned or dropped

A connection that is handed over is owned by one pending query until a step drops it. The
result of that step says so, and no other connection is dropped with it.
-/

namespace ResolverGate

variable {C : Type}

/-- The result says that the connection which the operation is about is dropped. -/
def Result.closes : Result → Bool
  | .outcome (.ok .released) => true
  | .accepted (.error _) => true
  | .ended found => found
  | _ => false

def Step.connection? (s : Step C) : Option C :=
  match s.operation with
  | .tcpAccepted _ conn => some conn
  | op => op.target?.bind fun id => (s.before.table.find? id).bind (·.origin.connection?)

def changed (steps : List (Step C)) (id : QueryId) (conn : C) : C :=
  steps.foldl
    (fun conn s => if s.operation.target? = some id then s.operation.change conn else conn) conn

def Table.connections (t : Table C) : List C := t.entries.filterMap (·.2.origin.connection?)

def Table.datagramsForwarded (t : Table C) : Nat :=
  t.entries.countP fun e => e.2.origin.transport = .udp && e.2.stage = .forwarded

/-- The query under the id owns the connection that step `i` hands over. -/
inductive Owned (steps : List (Step C)) (e : Engine C) (i : Nat) (id : QueryId) : Prop
  | intro {s : Step C} {peer : SocketAddress} {conn : C} {p : Pending C}
      (step : steps[i]? = some s) (op : s.operation = .tcpAccepted peer conn)
      (opened : Opened steps i s id steps.length) (present : e.table.find? id = some p)
      (origin : p.origin = .tcp (changed (steps.drop (i + 1)) id conn))

/-- The connection that step `i` hands over is dropped at a step: at once, or with the
query that owned it up to there. -/
inductive Dropped (steps : List (Step C)) (i : Nat) : Nat → Prop
  | refused {s : Step C} {peer : SocketAddress} {conn : C} (step : steps[i]? = some s)
      (op : s.operation = .tcpAccepted peer conn) (dropped : s.effects.dropped = [conn]) :
      Dropped steps i i
  | released {j : Nat} {s u : Step C} {id : QueryId} {peer : SocketAddress} {conn : C} (lt : i < j)
      (op : s.operation = .tcpAccepted peer conn) (opened : Opened steps i s id j)
      (step : steps[j]? = some u) (target : u.operation.target? = some id)
      (gone : u.after.table.find? id = none)
      (dropped : u.effects.dropped = [changed ((steps.take j).drop (i + 1)) id conn]) :
      Dropped steps i j

section Steps

variable {s : Step C} {steps : List (Step C)} {id : QueryId} {conn : C} {p p' : Pending C}
  {peer : SocketAddress}

theorem changed_snoc : changed (steps ++ [s]) id conn =
    if s.operation.target? = some id then s.operation.change (changed steps id conn)
    else changed steps id conn := by
  simp [changed]

theorem Operation.closes_result (s : Setting) (host : Host) (op : Operation C)
    (origin : p.origin = .tcp conn) :
    (op.result (op.turn s host p)).closes = (op.turn s host p).entry.isNone := by
  rcases Pending.turn_keeps s host op origin with ⟨entry, outcome⟩ | ⟨p', entry, -, kept⟩
  · rw [entry]
    cases op with
    | mapConnection id f => simp [turn, Turn.keep] at entry
    | expire => rfl
    | release => rfl
    | _ => simp only [result, outcome]; rfl
  · have open' : (Result.outcome (op.turn s host p).outcome).closes = false := by
      cases ho : (op.turn s host p).outcome with
      | error => rfl
      | ok o =>
        have := (kept o ho).1
        cases o <;> simp_all [Result.closes]
    rw [entry]
    cases op with
    | mapConnection => rfl
    | expire => simp [turn, Turn.gone] at entry
    | release => simp [turn, Turn.gone] at entry
    | _ => exact open'

namespace Step

theorem dropped_eq (s : Step C) :
    s.effects.dropped = if s.result.closes = true then s.connection?.toList else [] := by
  cases s.shape with
  | datagram op _ _ _ _ _ _ effects =>
    simp [effects, Turn.effects, connection?, op, Operation.target?, Pending.datagram,
      Pending.start, Origin.connection?]
  | dropped op _ _ _ _ effects => simp [effects, connection?, op, Operation.target?]
  | connection op _ _ result _ _ effects => simp [effects, Effects.none, result, Result.closes]
  | refused op result _ _ effects => simp [effects, result, Result.closes, connection?, op]
  | replaced _ result _ effects => simp [effects, Effects.none, result, Result.closes]
  | missed target absent _ _ effects =>
    have none : s.connection? = none := by
      cases op : s.operation <;> simp_all [connection?, Operation.target?]
    simp [effects, none]
  | @turned id p t target present turn result _ _ effects =>
    have own : s.connection? = p.origin.connection? := by
      cases op : s.operation <;> simp_all [connection?, Operation.target?]
    rw [own, effects, Turn.effects]
    cases origin : p.origin with
    | udp listener => simp [Origin.connection?]
    | tcp conn =>
      rw [result, turn, Operation.closes_result _ _ _ origin]
      cases (s.operation.turn s.before.setting s.host p).entry <;> rfl

/-- A connection is refused, or a query begins that owns it. -/
theorem handed_over (op : s.operation = .tcpAccepted peer conn) :
    (s.effects.dropped = [conn] ∧ ∀ id, ¬ s.Creates id) ∨
      ∃ id p, s.Creates id ∧ s.after.table.find? id = some p ∧ p.origin = .tcp conn ∧
        s.effects.dropped = [] := by
  cases s.shape with
  | @connection peer' conn' id buffer op' free _ _ found _ effects =>
    obtain ⟨rfl, rfl⟩ : peer = peer' ∧ conn = conn' := by simpa using op.symm.trans op'
    have present : s.after.table.find? id = some _ := (found id).trans (if_pos rfl)
    exact .inr ⟨id, _, ⟨free, Table.contains_iff.mpr ⟨_, present⟩⟩, present, rfl, effects ▸ rfl⟩
  | @refused peer' conn' fault op' _ found _ effects =>
    obtain ⟨rfl, rfl⟩ : peer = peer' ∧ conn = conn' := by simpa using op.symm.trans op'
    refine .inl ⟨effects ▸ rfl, ?_⟩
    rintro id ⟨absent, present⟩
    simp [Table.contains, found, absent] at present
  | datagram op' => simp [op] at op'
  | dropped op' => simp [op] at op'
  | replaced op' => simp [op] at op'
  | turned target => simp [op, Operation.target?] at target
  | missed target => simp [op, Operation.target?] at target

end Step

end Steps

section Places

variable {steps : List (Step C)} {e e' : Engine C} {s u : Step C} {i i' j j' : Nat}
  {id id' : QueryId} {conn : C} {p : Pending C} {peer : SocketAddress}

theorem Dropped.append (h : Dropped steps i j) (more : List (Step C)) :
    Dropped (steps ++ more) i j := by
  cases h with
  | refused step op dropped =>
    obtain ⟨hi, -⟩ := List.getElem?_eq_some_iff.mp step
    exact .refused (by rw [List.getElem?_append_left hi, step]) op dropped
  | released lt op opened step target gone dropped =>
    obtain ⟨hj, -⟩ := List.getElem?_eq_some_iff.mp step
    refine .released lt op (opened.append hj.le more)
      (by rw [List.getElem?_append_left hj, step]) target gone ?_
    rwa [List.take_append_of_le_length hj.le]

theorem Owned.snoc (h : Owned steps s.before i id) :
    Owned (steps ++ [s]) s.after i id ∨
      s.after.table.find? id = none ∧ Dropped (steps ++ [s]) i steps.length := by
  obtain ⟨step, op, opened, present, origin⟩ := h
  obtain ⟨hi, -⟩ := List.getElem?_eq_some_iff.mp step
  have step' : (steps ++ [s])[i]? = some _ := (List.getElem?_append_left hi).trans step
  have between : (steps ++ [s]).drop (i + 1) = steps.drop (i + 1) ++ [s] :=
    List.drop_append_of_le_length hi
  by_cases target : s.operation.target? = some id
  · obtain ⟨t, turn, result, -, effects, found⟩ := s.turned target present
    replace found : s.after.table.find? id = t.entry := (found id).trans (if_pos rfl)
    rcases Pending.turn_keeps s.before.setting s.host s.operation origin with
      ⟨entry, -⟩ | ⟨p', entry, origin', -⟩
    · rw [← turn] at entry
      refine .inr ⟨found.trans entry, .released hi op (opened.append (Nat.le_refl _) [s])
        (by simp) target (found.trans entry) ?_⟩
      rw [List.take_append_of_le_length (Nat.le_refl _), List.take_length, effects, Turn.effects,
        entry, origin]
      rfl
    · rw [← turn] at entry
      have kept := found.trans entry
      refine .inl (.intro step' op (opened.snoc (Table.contains_iff.mpr ⟨_, kept⟩)) kept ?_)
      rw [between, changed_snoc, if_pos target, origin']
  · have kept := s.find?_of_not_target target present
    refine .inl (.intro step' op (opened.snoc (Table.contains_iff.mpr ⟨_, kept⟩)) kept ?_)
    rw [between, changed_snoc, if_neg target, origin]

theorem Owned.last (op : s.operation = .tcpAccepted peer conn) (creates : s.Creates id)
    (present : s.after.table.find? id = some p) (origin : p.origin = .tcp conn) :
    Owned (steps ++ [s]) s.after steps.length id := by
  refine .intro (by simp) op (.last creates) present ?_
  rw [List.drop_of_length_le (by simp), origin]
  rfl

theorem Owned.id_unique (h : Owned steps e i id) (h' : Owned steps e i id') : id = id' := by
  obtain ⟨step, -, opened⟩ := h
  obtain ⟨step', -, opened'⟩ := h'
  obtain rfl := Option.some.inj (step.symm.trans step')
  exact Step.creates_unique opened.creates opened'.creates

theorem Owned.call_unique (run : Run e' steps e) (h : Owned steps e i id)
    (h' : Owned steps e i' id) : i = i' := by
  obtain ⟨step, -, opened⟩ := h
  obtain ⟨step', -, opened'⟩ := h'
  exact opened.unique run opened' (List.getElem?_eq_some_iff.mp step).1
    (List.getElem?_eq_some_iff.mp step').1

theorem Step.not_creates_of_refused (op : s.operation = .tcpAccepted peer conn)
    (dropped : s.effects.dropped = [conn]) : ¬ s.Creates id := by
  rcases s.handed_over op with ⟨-, none⟩ | ⟨_, _, -, -, -, kept⟩
  · exact none id
  · simp [dropped] at kept

theorem Owned.not_dropped (h : Owned steps e i id) : ¬ Dropped steps i j := by
  obtain ⟨step, -, opened⟩ := h
  intro dropped
  cases dropped with
  | refused step' op' dropped =>
    obtain rfl := Option.some.inj (step.symm.trans step')
    exact Step.not_creates_of_refused op' dropped opened.creates
  | released lt op' opened' at' target gone =>
    obtain rfl := Option.some.inj (step.symm.trans opened'.step)
    obtain rfl := Step.creates_unique opened.creates opened'.creates
    have present := opened.stays _ _ lt.le (List.getElem?_eq_some_iff.mp at').1 at'
    simp [Table.contains, gone] at present

theorem Dropped.not_lt (h : Dropped steps i j) (h' : Dropped steps i j') : ¬ j < j' := by
  intro hlt
  cases h' with
  | refused =>
    cases h with
    | refused => exact absurd hlt (Nat.lt_irrefl _)
    | released lt => omega
  | released lt' op' opened' =>
    cases h with
    | refused step op dropped =>
      obtain rfl := Option.some.inj (step.symm.trans opened'.step)
      exact Step.not_creates_of_refused op dropped opened'.creates
    | released lt op opened at' _ gone =>
      obtain rfl := Option.some.inj (opened.step.symm.trans opened'.step)
      obtain rfl := Step.creates_unique opened.creates opened'.creates
      have present := opened'.stays _ _ lt.le hlt at'
      simp [Table.contains, gone] at present

theorem Dropped.unique (h : Dropped steps i j) (h' : Dropped steps i j') : j = j' :=
  Nat.le_antisymm (Nat.le_of_not_lt (h'.not_lt h)) (Nat.le_of_not_lt (h.not_lt h'))

theorem Dropped.call_unique (run : Run e' steps e) (h : Dropped steps i j)
    (h' : Dropped steps i' j) : i = i' := by
  cases h with
  | refused step op =>
    cases h' with
    | refused => rfl
    | released _ _ _ step' target =>
      obtain rfl := Option.some.inj (step.symm.trans step')
      simp [op, Operation.target?] at target
  | released lt _ opened step target =>
    cases h' with
    | refused step' op' =>
      obtain rfl := Option.some.inj (step.symm.trans step')
      simp [op', Operation.target?] at target
    | released lt' _ opened' step' target' =>
      obtain rfl := Option.some.inj (step.symm.trans step')
      obtain rfl := Option.some.inj (target.symm.trans target')
      exact opened.unique run opened' lt lt'

end Places

/-- Each connection that the steps hand over is in its place, and no other is owned. -/
structure Settled (steps : List (Step C)) (e : Engine C) : Prop where
  handed : ∀ i s peer conn, steps[i]? = some s → s.operation = .tcpAccepted peer conn →
    (∃ id, Owned steps e i id) ∨ ∃ j, Dropped steps i j
  held : ∀ id p conn, e.table.find? id = some p → p.origin = .tcp conn → ∃ i, Owned steps e i id

section Snoc

variable {steps : List (Step C)} {s : Step C} {id : QueryId} {p p' : Pending C} {conn : C}
  {listener : Nat}

theorem Traced.origin_eq (traced : Traced steps s.before)
    (before : s.before.table.find? id = some p)
    (origin : p.origin = .udp listener) (after : s.after.table.find? id = some p') :
    p'.origin = .udp listener := by
  by_cases target : s.operation.target? = some id
  · obtain ⟨_, _, _, q, -, -, -, awaits⟩ := traced id p listener before origin
    obtain ⟨t, turn, -, -, -, found⟩ := s.turned target before
    rw [found, if_pos rfl, turn] at after
    exact (Pending.awaits_of_turn awaits after).1.origin
  · rw [s.find?_of_not_target target before] at after
    exact Option.some.inj after ▸ origin

theorem Step.Creates.owned (creates : s.Creates id) (present : s.after.table.find? id = some p)
    (origin : p.origin = .tcp conn) : Owned (steps ++ [s]) s.after steps.length id := by
  have given {op : Operation C} {id' : QueryId} (hop : s.operation = op)
      (target : op.target? = some id') : False := by
    have own : id = id' := by
      obtain ⟨k, own, others⟩ := s.confined
      rw [own id' (hop ▸ target)]
      by_contra hid
      simp [others id hid, creates.1] at present
    exact Step.not_creates_of_target (hop ▸ target) (own ▸ creates)
  cases op : s.operation with
  | tcpAccepted peer conn' =>
    rcases s.handed_over op with ⟨-, none⟩ | ⟨id', p', creates', present', origin', -⟩
    · exact absurd creates (none id)
    · obtain rfl := Step.creates_unique creates creates'
      exact .last op creates present' origin'
  | udpReceived listener peer m =>
    obtain ⟨-, id', t, free, turn, -, found, -⟩ | ⟨-, -, found, -⟩ := s.received op
    case inr => exact absurd (creates.1.symm.trans ((found id).symm.trans present)) (by simp)
    rw [found] at present
    split at present
    · rw [turn] at present
      obtain ⟨q, -, awaits, -⟩ := Pending.awaits_of_judge rfl present
      simp [awaits.origin] at origin
    · simp [creates.1] at present
  | replaceBlocklist blocklist =>
    have performed := s.performed
    simp only [op, Engine.perform, Option.some.injEq, Prod.mk.injEq] at performed
    rw [← performed.2.1] at present
    exact absurd (creates.1.symm.trans present) (by simp)
  | _ => exact (given op rfl).elim

theorem Settled.snoc (h : Settled steps s.before) (traced : Traced steps s.before) :
    Settled (steps ++ [s]) s.after where
  handed := by
    intro i u peer conn step op
    by_cases last : i < steps.length
    · rw [List.getElem?_append_left last] at step
      rcases h.handed i u peer conn step op with ⟨id, owned⟩ | ⟨j, dropped⟩
      · rcases owned.snoc with owned | ⟨-, dropped⟩
        · exact .inl ⟨id, owned⟩
        · exact .inr ⟨_, dropped⟩
      · exact .inr ⟨j, dropped.append [s]⟩
    · obtain ⟨hi, -⟩ := List.getElem?_eq_some_iff.mp step
      obtain rfl : i = steps.length := by simp at hi; omega
      obtain rfl : s = u := by simpa using step
      rcases s.handed_over op with ⟨dropped, -⟩ | ⟨id, p, creates, present, origin, -⟩
      · exact .inr ⟨_, .refused step op dropped⟩
      · exact .inl ⟨id, .last op creates present origin⟩
  held := by
    intro id p conn present origin
    cases before : s.before.table.find? id with
    | none =>
      have creates : s.Creates id := ⟨before, Table.contains_iff.mpr ⟨p, present⟩⟩
      exact ⟨_, creates.owned present origin⟩
    | some p₀ =>
      cases origin₀ : p₀.origin with
      | udp listener =>
        have := traced.origin_eq before origin₀ present
        simp [origin] at this
      | tcp conn₀ =>
        -- The same call is still the one that the query began with.
        obtain ⟨i, owned⟩ := h.held id p₀ conn₀ before origin₀
        rcases owned.snoc with owned | ⟨gone, -⟩
        · exact ⟨i, owned⟩
        · simp [gone] at present

/-- The connection that a step drops was handed over to it or before. -/
theorem Settled.exists_dropped (h : Settled steps s.before) (some : s.effects.dropped ≠ []) :
    ∃ i, Dropped (steps ++ [s]) i steps.length := by
  cases s.shape with
  | refused op _ _ _ effects => exact ⟨_, .refused (by simp) op (effects ▸ rfl)⟩
  | connection _ _ _ _ _ _ effects => simp [effects, Effects.none] at some
  | replaced _ _ _ effects => simp [effects, Effects.none] at some
  | missed _ _ _ _ effects => simp [effects] at some
  | dropped _ _ _ _ _ effects => simp [effects] at some
  | datagram _ _ _ _ _ _ _ effects =>
    simp [effects, Turn.effects, Pending.datagram, Pending.start, Origin.connection?] at some
  | @turned id p t target present _ _ found _ effects =>
    cases origin : p.origin with
    | udp listener => simp [effects, Turn.effects, origin, Origin.connection?] at some
    | tcp conn =>
      obtain ⟨i, owned⟩ := h.held id p conn present origin
      rcases owned.snoc with ⟨-, -, -, after, -⟩ | ⟨-, dropped⟩
      · rw [found, if_pos rfl] at after
        simp [effects, Turn.effects, after] at some
      · exact ⟨i, dropped⟩

end Snoc

namespace Run

variable {ids : IdSource} {setting : Setting} {steps : List (Step C)} {e : Engine C}

theorem settled (run : Run (.fresh ids setting) steps e) : Settled steps e := by
  induction run with
  | start =>
    refine ⟨by simp, fun id p conn present => ?_⟩
    simp [Engine.fresh] at present
  | next run ih => exact ih.snoc run.traced

/-- A query that is pending is forwarded, or on a connection. -/
theorem count_eq (run : Run (.fresh ids setting) steps e) :
    e.table.count = e.table.datagramsForwarded + e.table.connections.length := by
  have distinct := run.distinct Engine.distinct_fresh
  rw [Table.count, Table.connections, List.length_filterMap_eq_countP, Table.datagramsForwarded,
    List.length_eq_countP_add_countP fun x => x.2.origin.connection?.isSome, Nat.add_comm]
  congr 1
  refine List.countP_congr fun ⟨id, p⟩ mem => ?_
  obtain ⟨-, known⟩ := run.accounted id p (distinct.find?_of_mem mem)
  cases origin : p.origin with
  | tcp conn => simp [Origin.connection?, Origin.transport]
  | udp listener =>
    have stage : p.stage = .forwarded := by
      cases known with
      | reading stream => simp [origin, Origin.transport] at stream
      | awaiting stage => exact stage
      | writing _ stream => simp [origin, Origin.transport] at stream
    simp [Origin.connection?, Origin.transport, stage]

/-- Every connection that was handed over is owned by one query, or was dropped by one step,
whose result says so. -/
theorem connections_settled (run : Run (.fresh ids setting) steps e) :
    (∀ i s peer conn, steps[i]? = some s → s.operation = .tcpAccepted peer conn →
      ((∃! id, Owned steps e i id) ∧ ∀ j, ¬ Dropped steps i j) ∨
        ((∃! j, Dropped steps i j) ∧ ∀ id, ¬ Owned steps e i id)) ∧
    (∀ id p conn, e.table.find? id = some p → p.origin = .tcp conn → ∃! i, Owned steps e i id) ∧
    (∀ j s, steps[j]? = some s →
      s.effects.dropped = (if s.result.closes = true then s.connection?.toList else []) ∧
        (s.effects.dropped ≠ [] → ∃! i, Dropped steps i j)) ∧
    e.table.Distinct ∧
    e.table.count = e.table.datagramsForwarded + e.table.connections.length := by
  refine ⟨fun i s peer conn step op => ?_, fun id p conn present origin => ?_,
    fun j s step => ⟨s.dropped_eq, fun some => ?_⟩, run.distinct Engine.distinct_fresh,
    run.count_eq⟩
  · rcases run.settled.handed i s peer conn step op with ⟨id, owned⟩ | ⟨j, dropped⟩
    · exact .inl ⟨⟨id, owned, fun id' owned' => owned'.id_unique owned⟩,
        fun j => owned.not_dropped⟩
    · exact .inr ⟨⟨j, dropped, fun j' dropped' => dropped'.unique dropped⟩,
        fun id owned => owned.not_dropped dropped⟩
  · obtain ⟨i, owned⟩ := run.settled.held id p conn present origin
    exact ⟨i, owned, fun i' owned' => owned'.call_unique run owned⟩
  · obtain ⟨hj, hs⟩ := List.getElem?_eq_some_iff.mp step
    have split : steps = (steps.take j ++ [s]) ++ steps.drop (j + 1) := by simp [← hs]
    obtain ⟨i, dropped⟩ := (run.before step).settled.exists_dropped some
    have whole := dropped.append (steps.drop (j + 1))
    rw [← split, List.length_take_of_le hj.le] at whole
    exact ⟨i, whole, fun i' dropped' => dropped'.call_unique run whole⟩

/-- A connection is accepted and then released, and dropped once. -/
theorem connections_settled_released : ∃ (steps : List (Step Nat)) (e : Engine Nat),
    Run (.fresh (.ofQueue [] 7) .small) steps e ∧ steps[0]? = some .connect ∧ e.table.count = 0 ∧
      steps.flatMap (·.effects.dropped) = [5] ∧ ∃! j, Dropped steps 0 j := by
  let release : Step Nat := ⟨Step.connect.after, .plenty, .release ⟨7⟩, _, _, _, rfl⟩
  have connected : Run .small [Step.connect] release.before := .next (s := .connect) .start
  have run : Run .small [Step.connect, release] release.after := connected.next
  refine ⟨_, _, run, rfl, rfl, rfl, ?_⟩
  rcases run.connections_settled.1 0 .connect .loopback 5 rfl rfl with
    ⟨⟨id, owned, -⟩, -⟩ | ⟨dropped, -⟩
  · obtain ⟨-, -, -, present, -⟩ := owned
    have empty : release.after.table.entries = [] := rfl
    simp [Table.find?, empty] at present
  · exact dropped

end Run

end ResolverGate
