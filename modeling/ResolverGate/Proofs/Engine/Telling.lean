import ResolverGate.Proofs.Engine.Run
import ResolverGate.Proofs.Engine.Turn

/-! # What outcomes tell

Whoever holds the connection of a query learns from the outcome of its turn what became
of it: that it is gone, or which stage it has moved to. A turn leaves the query on its
connection.
-/

namespace ResolverGate

variable {C : Type}

/-- A query on a connection goes from the one stage to the other, as the outcome tells. -/
inductive Stage.Moves : Stage → Outcome → Stage → Prop
  | reads {a b : Stage} (before : a.isReading = true) (after : b.isReading = true) :
      Moves a .readMore b
  | awaits {a : Stage} (before : a.isReading = true ∨ a = .forwarded) : Moves a .waiting .forwarded
  | replies {a : Stage} (before : a.isReading = true ∨ a = .forwarded) :
      Moves a .startWriting .writing
  | writes : Moves .writing .writeMore .writing

/-- What a turn tells of a query that was on the connection, at the stage `a`. -/
inductive Turn.Tells (conn : C) (a : Stage) (t : Turn C) : Prop
  | gone (entry : t.entry = none) (outcome : t.outcome = .ok .released)
  | moved {p : Pending C} {o : Outcome} (entry : t.entry = some p) (origin : p.origin = .tcp conn)
      (outcome : t.outcome = .ok o) (moves : a.Moves o p.stage)

inductive Turn.Fails (conn : C) (a : Stage) (t : Turn C) : Prop
  | intro {p : Pending C} {fault : Fault} (entry : t.entry = some p)
      (origin : p.origin = .tcp conn) (stage : p.stage = a) (outcome : t.outcome = .error fault)

/-- The operation is one that a query at the stage acts on. -/
def Operation.Expects : Operation C → Stage → Prop
  | .tcpReceived _ _, stage => stage.isReading = true
  | .tcpWrote _ _, stage => stage = .writing
  | .backendAnswer _, stage => stage = .forwarded
  | _, _ => True

def Operation.change : Operation C → C → C
  | .mapConnection _ f => f
  | _ => id

variable {conn : C} {a : Stage} {t t' : Turn C}

theorem Stage.Moves.outcome_ne {b : Stage} {o : Outcome} (h : a.Moves o b) :
    o ≠ .released ∧ ∀ d, o ≠ .sendDatagram d := by
  cases h <;> simp

theorem Turn.Tells.congr (h : t.Tells conn a) (entry : t'.entry = t.entry)
    (outcome : t'.outcome = t.outcome) : t'.Tells conn a := by
  cases h with
  | gone entry' outcome' => exact .gone (entry.trans entry') (outcome.trans outcome')
  | moved entry' origin outcome' moves =>
    exact .moved (entry.trans entry') origin (outcome.trans outcome') moves

namespace Pending

variable {p : Pending C} {s : Setting} {host : Host} {memory : Memory} {q : Query}
  {f : Fragment} {reply chunk : Bytes} {o : Outcome}

theorem tells_gone : (Turn.gone : Turn C).Tells conn a := .gone rfl rfl

theorem tells_keep (origin : p.origin = .tcp conn) (moves : a.Moves o p.stage) :
    (Turn.keep p o).Tells conn a :=
  .moved rfl origin rfl moves

theorem sendAnswer_tells (origin : p.origin = .tcp conn)
    (before : a.isReading = true ∨ a = .forwarded) : (p.sendAnswer memory reply).Tells conn a := by
  obtain ⟨-, sent⟩ | ⟨fault, sent⟩ := sendAnswer_stream origin memory reply
  · rw [sent]
    exact tells_keep origin (.replies before)
  · rw [sent]
    exact tells_gone.congr rfl rfl

theorem judge_tells (origin : p.origin = .tcp conn) (before : a.isReading = true) :
    (p.judge s host).Tells conn a := by
  suffices h : (p.settle host (s.policy.judge p.query.upToLimit)).Tells conn a from
    h.congr rfl rfl
  cases hf : (s.policy.judge p.query.upToLimit).fate host.backend p.id with
  | dropped => exact settle_dropped hf ▸ tells_gone
  | replied reply =>
    obtain ⟨parsed, ns, h⟩ := settle_replied hf
    exact h ▸ (sendAnswer_tells (p := { p with parsed }) origin (.inl before)).congr rfl rfl
  | forwarded q =>
    rw [settle_forwarded hf]
    exact .moved rfl origin rfl (.awaits (.inl before))

theorem received_tells (origin : p.origin = .tcp conn) (reading : p.stage.isReading = true) :
    (p.received s host chunk).Tells conn p.stage := by
  unfold received
  rw [if_neg (by simp [reading])]
  split
  · exact tells_gone
  split
  · exact tells_gone
  split
  · exact tells_gone.congr rfl rfl
  next p' hp =>
  obtain ⟨query, stage, still, rfl⟩ := exists_of_enterBody hp
  split
  · exact judge_tells origin reading
  · exact tells_keep origin (.reads reading (still reading))

theorem wrote_tells {n : Nat} (origin : p.origin = .tcp conn) (writing : p.stage = .writing) :
    (p.wrote n).Tells conn p.stage := by
  unfold wrote
  rw [if_neg (not_not.mpr writing)]
  split
  · exact tells_gone
  split
  · exact tells_gone
  · refine tells_keep origin ?_
    rw [writing]
    exact .writes

/-- A fragment that overruns its answer makes the turn fail. -/
theorem answered_tells (s : Setting) (memory : Memory) (f : Fragment)
    (origin : p.origin = .tcp conn) (forwarded : p.stage = .forwarded) :
    (p.answered s memory f).Tells conn p.stage ∨ (p.answered s memory f).Fails conn p.stage := by
  have waits : p.stage.Moves .waiting p.stage := by
    rw [forwarded]
    exact .awaits (.inr rfl)
  unfold answered
  split
  case h_2 => exact .inl ((tells_keep origin waits).congr rfl rfl)
  split
  · exact .inl (sendAnswer_tells origin (.inr forwarded))
  split
  · exact .inl ((sendAnswer_tells origin (.inr forwarded)).congr rfl rfl)
  next b _ =>
  simp only
  split
  · exact .inr (.intro rfl origin rfl rfl)
  split
  · exact .inr (.intro rfl origin rfl rfl)
  split
  · obtain ⟨reply, -, entry, outcome⟩ := deliver_eq_sendAnswer { p with answer := _ } s memory _ _
    exact .inl ((sendAnswer_tells (p := { p with answer := _ }) origin (.inr forwarded)).congr
      entry outcome)
  · exact .inl (tells_keep origin waits)

theorem turn_ignored (s : Setting) (host : Host) {op : Operation C}
    (unexpected : ¬ op.Expects p.stage) :
    ∃ ns, op.turn s host p = (Turn.keep p .waiting).notify ns := by
  cases op with
  | tcpReceived id chunk => exact ⟨[], received_elsewhere (Bool.eq_false_iff.mpr unexpected)⟩
  | tcpWrote id n => exact ⟨[], wrote_elsewhere unexpected⟩
  | backendAnswer f => exact ⟨_, answered_unexpected (.inl unexpected)⟩
  | _ => exact absurd trivial unexpected

theorem turn_tells (s : Setting) (host : Host) {op : Operation C}
    (origin : p.origin = .tcp conn) (expects : op.Expects p.stage) :
    (op.turn s host p).Tells conn p.stage ∨ (op.turn s host p).Fails conn p.stage ∨
      ∃ id f, op = .mapConnection id f := by
  cases op with
  | tcpReceived id chunk => exact .inl (received_tells origin expects)
  | tcpWrote id n => exact .inl (wrote_tells origin expects)
  | backendAnswer f => exact (answered_tells s _ f origin expects).imp_right .inl
  | mapConnection id f => exact .inr (.inr ⟨id, f, rfl⟩)
  | _ => exact .inl tells_gone

/-- A query leaves its connection only when it is gone, and then the outcome says so. -/
theorem turn_keeps (s : Setting) (host : Host) (op : Operation C)
    (origin : p.origin = .tcp conn) :
    ((op.turn s host p).entry = none ∧ (op.turn s host p).outcome = .ok .released) ∨
      ∃ p', (op.turn s host p).entry = some p' ∧ p'.origin = .tcp (op.change conn) ∧
        ∀ o, (op.turn s host p).outcome = .ok o → o ≠ .released ∧ ∀ d, o ≠ .sendDatagram d := by
  have waiting (o : Outcome) (ho : (.ok .waiting : Except Fault Outcome) = .ok o) :
      o ≠ .released ∧ ∀ d, o ≠ .sendDatagram d := by
    obtain rfl := Except.ok.inj ho
    simp
  by_cases moves : ∃ id f, op = .mapConnection id f
  · obtain ⟨id, f, rfl⟩ := moves
    exact .inr ⟨_, rfl, by rw [origin]; rfl, waiting⟩
  have same : op.change conn = conn := by
    cases op with
    | mapConnection id f => exact absurd ⟨id, f, rfl⟩ moves
    | _ => rfl
  rw [same]
  by_cases expects : op.Expects p.stage
  case neg =>
    obtain ⟨ns, h⟩ := turn_ignored s host expects
    exact .inr ⟨p, by rw [h]; rfl, origin, by rw [h]; exact waiting⟩
  rcases turn_tells s host origin expects with h | ⟨entry, origin, _, outcome⟩ | h
  · cases h with
    | gone entry outcome => exact .inl ⟨entry, outcome⟩
    | moved entry origin outcome moves =>
      refine .inr ⟨_, entry, origin, fun o ho => ?_⟩
      obtain rfl := Except.ok.inj (outcome.symm.trans ho)
      exact moves.outcome_ne
  · exact .inr ⟨_, entry, origin, by simp [outcome]⟩
  · exact absurd h moves

end Pending

theorem Step.ignored {s : Step C} {id : QueryId} {p : Pending C}
    (distinct : s.before.table.Distinct)
    (target : s.operation.target? = some id) (present : s.before.table.find? id = some p)
    (unexpected : ¬ s.operation.Expects p.stage) :
    s.result = s.operation.result (.keep p .waiting) ∧ s.after = s.before ∧
      { s.effects with notices := [] } = (Effects.none : Effects C) := by
  obtain ⟨t, turn, result, after, effects, -⟩ := s.turned target present
  obtain ⟨ns, same⟩ := Pending.turn_ignored s.before.setting s.host unexpected
  obtain rfl : t = (Turn.keep p .waiting).notify ns := turn.trans same
  refine ⟨?_, ?_, ?_⟩
  · rw [result]
    cases s.operation <;> rfl
  · rw [after]
    exact congrArg (fun table => { s.before with table }) (distinct.update_self present)
  · rw [effects]
    rfl

end ResolverGate
