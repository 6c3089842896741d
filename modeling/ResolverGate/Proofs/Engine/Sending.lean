import ResolverGate.Proofs.Engine.Telling

/-! # Turns that send a datagram

Only a query that came in a datagram is replied to in one, at once or when it is
answered, and the reply is the last that is heard of it.
-/

namespace ResolverGate

variable {C : Type}

structure Turn.Streams (t : Turn C) : Prop where
  kept : ∀ p ∈ t.entry, p.origin.transport = .tcp
  silent : ∀ d, t.outcome ≠ .ok (.sendDatagram d)

namespace Pending

variable {p p' : Pending C} {s : Setting} {host : Host} {memory : Memory} {q : Query}
  {f : Fragment} {a m c : Bytes} {op : Operation C} {d : Datagram} {listener : Nat}

/-- An awaited fragment ends the wait with a reply, or the wait goes on. -/
theorem answered_forwarded (s : Setting) (memory : Memory) (f : Fragment)
    (hs : p.stage = .forwarded) (hq : p.parsed = some q) :
    (∃ reply, (reply = q.errorReply .servFail ∨
        ∃ a, s.encoder (p.encoderCall s q a) = .ok reply) ∧
      (p.answered s memory f).entry = (p.sendAnswer memory reply).entry ∧
      (p.answered s memory f).outcome = (p.sendAnswer memory reply).outcome) ∨
    ∃ b, (p.answered s memory f).entry = some { p with answer := b } ∧
      ∀ d, (p.answered s memory f).outcome ≠ .ok (.sendDatagram d) := by
  unfold answered
  split
  case h_2 no => exact absurd hq (no q hs)
  next q' _ hq' =>
  obtain rfl : q' = q := Option.some.inj (hq'.symm.trans hq)
  split
  · exact .inl ⟨_, .inl rfl, rfl, rfl⟩
  split
  · exact .inl ⟨_, .inl rfl, rfl, rfl⟩
  next b hp =>
  split
  · exact .inr ⟨b, by simp [Turn.keep], by simp⟩
  split
  · exact .inr ⟨b, by simp [Turn.keep], by simp⟩
  next b' hw =>
  split
  · rw [deliver_answer, deliver_answer]
    obtain ⟨reply, hr, he⟩ := deliver_eq_sendAnswer p s memory q' b'.flip.upToLimit
    exact .inl ⟨reply, hr.symm.imp_right fun h => ⟨_, h⟩, he⟩
  · exact .inr ⟨b', by simp [Turn.keep], by simp [Turn.keep]⟩

theorem answered_datagram (ho : p.origin = .udp listener)
    (h : (p.answered s memory f).entry = some p') : p'.origin = .udp listener := by
  by_cases awaited : p.stage = .forwarded ∧ ∃ q, p.parsed = some q
  · obtain ⟨hs, q, hq⟩ := awaited
    rcases answered_forwarded s memory f hs hq with
      ⟨reply, -, he, -⟩ | ⟨b, he, -⟩
    · rw [he, sendAnswer_udp ho] at h
      simp at h
    · rw [he] at h
      exact Option.some.inj h ▸ ho
  · have unexpected : p.stage ≠ .forwarded ∨ p.parsed = none := by
      rw [← Option.not_isSome_iff_eq_none, Option.isSome_iff_exists]
      exact not_and_or.mp awaited
    rw [answered_unexpected unexpected] at h
    exact Option.some.inj h ▸ ho

theorem turn_streams (ho : p.origin.transport = .tcp) : (op.turn s host p).Streams := by
  obtain ⟨conn, hc⟩ := Origin.exists_connection ho
  rcases turn_keeps s host op hc with
    ⟨entry, outcome⟩ | ⟨p', entry, origin, tells⟩
  · exact ⟨by simp [entry], by simp [outcome]⟩
  · refine ⟨fun p₁ hp => ?_, fun d hd => (tells _ hd).2 d rfl⟩
    obtain rfl : p' = p₁ := Option.some.inj (entry.symm.trans hp)
    rw [origin]
    rfl

/-- A query that came in a datagram, and is the engine's to answer. -/
structure Awaits (p : Pending C) (listener : Nat) (q : Query) : Prop where
  origin : p.origin = .udp listener
  stage : p.stage = .forwarded
  parsed : p.parsed = some q

theorem awaits_of_judge (ho : p.origin = .udp listener)
    (h : (p.judge s host).entry = some p') :
    ∃ q, s.policy.judge p.query.upToLimit = .forward q ∧ p'.Awaits listener q ∧
      p'.peer = p.peer := by
  replace h : (p.settle host (s.policy.judge p.query.upToLimit)).entry = some p' := h
  cases hf : (s.policy.judge p.query.upToLimit).fate host.backend p.id with
  | dropped => simp [settle_dropped hf, Turn.gone] at h
  | replied reply =>
    obtain ⟨parsed, ns, hr⟩ := settle_replied hf
    rw [hr, sendAnswer_udp (p := { p with parsed }) ho] at h
    simp [Turn.notify] at h
  | forwarded q =>
    rw [settle_forwarded hf] at h
    obtain rfl := Option.some.inj h
    exact ⟨q, (Admission.fate_eq_forwarded hf).1, ⟨ho, rfl, rfl⟩, rfl⟩

theorem judge_sends (ho : p.origin = .udp listener)
    (h : (p.judge s host).outcome = .ok (.sendDatagram d)) :
    (p.judge s host).entry = none ∧ d.listener = listener ∧ d.peer = p.peer ∧
      (s.policy.judge p.query.upToLimit).fate host.backend p.id = .replied d.payload := by
  suffices hs : (p.settle host (s.policy.judge p.query.upToLimit)).outcome =
        .ok (.sendDatagram d) →
      (p.settle host (s.policy.judge p.query.upToLimit)).entry = none ∧
        d.listener = listener ∧ d.peer = p.peer ∧
        (s.policy.judge p.query.upToLimit).fate host.backend p.id = .replied d.payload from hs h
  intro h
  cases hf : (s.policy.judge p.query.upToLimit).fate host.backend p.id with
  | dropped => simp [settle_dropped hf, Turn.gone] at h
  | replied reply =>
    obtain ⟨parsed, ns, hr⟩ := settle_replied hf
    rw [hr, sendAnswer_udp (p := { p with parsed }) ho] at h ⊢
    simp only [Turn.notify, Except.ok.injEq, Outcome.sendDatagram.injEq] at h
    obtain rfl := h
    exact ⟨rfl, rfl, rfl, rfl⟩
  | forwarded q =>
    rw [settle_forwarded hf] at h
    simp [Turn.keep] at h

variable (hw : p.Awaits listener q)

include hw

theorem awaits_of_turn (h : (op.turn s host p).entry = some p') :
    p'.Awaits listener q ∧ p'.peer = p.peer := by
  have same (h : some p = some p') : p'.Awaits listener q ∧ p'.peer = p.peer :=
    Option.some.inj h ▸ ⟨hw, rfl⟩
  cases op with
  | tcpReceived _ chunk =>
    rw [Operation.turn, received_elsewhere (by simp [hw.stage, Stage.isReading])] at h
    exact same h
  | tcpWrote _ count =>
    rw [Operation.turn, wrote_elsewhere (by simp [hw.stage])] at h
    exact same h
  | backendAnswer f =>
    rcases answered_forwarded s host.memory f hw.stage hw.parsed with
      ⟨reply, -, he, -⟩ | ⟨b, he, -⟩
    · rw [Operation.turn, he, sendAnswer_udp hw.origin] at h
      simp at h
    · rw [Operation.turn, he] at h
      obtain rfl := Option.some.inj h
      exact ⟨⟨hw.origin, hw.stage, hw.parsed⟩, rfl⟩
  | mapConnection _ f =>
    obtain rfl := Option.some.inj h
    exact ⟨⟨by simp [hw.origin, Origin.map], hw.stage, hw.parsed⟩, rfl⟩
  | _ => simp [Operation.turn, Turn.gone] at h

/-- The reply to an awaited answer ends the query. -/
theorem turn_sends
    (starts : ∀ c r, s.encoder c = .ok r → Bytes.of16 c.query.header.id <+: r)
    (h : op.result (op.turn s host p) = .outcome (.ok (.sendDatagram d))) :
    (∃ f, op = .backendAnswer f) ∧ (op.turn s host p).entry = none ∧
      d.listener = listener ∧ d.peer = p.peer ∧ Bytes.of16 q.header.id <+: d.payload := by
  cases op with
  | backendAnswer f =>
    replace h : (p.answered s host.memory f).outcome = .ok (.sendDatagram d) := Result.outcome.inj h
    rcases answered_forwarded s host.memory f hw.stage hw.parsed with
      ⟨reply, hr, he, ho⟩ | ⟨b, -, ho⟩
    · rw [ho, sendAnswer_udp hw.origin] at h
      obtain rfl := Outcome.sendDatagram.inj (Except.ok.inj h)
      refine ⟨⟨f, rfl⟩, he.trans (by rw [sendAnswer_udp hw.origin]), rfl, rfl, ?_⟩
      rcases hr with rfl | ⟨a, ha⟩
      · exact Reply.id_prefix_error _ _ _ _
      · exact starts _ _ ha
    · exact absurd h (ho d)
  | tcpReceived _ chunk =>
    rw [Operation.turn, received_elsewhere (by simp [hw.stage, Stage.isReading])] at h
    simp [Operation.result, Turn.keep] at h
  | tcpWrote _ count =>
    rw [Operation.turn, wrote_elsewhere (by simp [hw.stage])] at h
    simp [Operation.result, Turn.keep] at h
  | _ => simp [Operation.result, Operation.turn, Turn.gone] at h

end Pending

end ResolverGate
