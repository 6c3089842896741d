import ResolverGate.Proofs.Engine.Run
import ResolverGate.Proofs.Engine.Turn

/-! # Queries at rest

Between operations a query reads, waits for the engine or writes; the octets in
its buffers fit what it does. Every turn leaves a query that fits, so every
entry of a running engine does.
-/

namespace ResolverGate

variable {C : Type}

namespace Pending

/-- What a query holds at each stage that outlasts an operation. -/
inductive AtRest (p : Pending C) : Prop
  | readingLength {conn : C} {m : Bytes} {size room : Nat}
      (stage : p.stage = .readingLength) (origin : p.origin = .tcp conn)
      (read : p.query.Filled m size) (short : m.length < 2) (enough : 2 ≤ size)
      (unanswered : p.answer.Filled [] room)
  | readingBody {conn : C} {m : Bytes} {size room : Nat}
      (stage : p.stage = .readingBody) (origin : p.origin = .tcp conn)
      (read : p.query.Filled m size) (short : m.length < size)
      (unanswered : p.answer.Filled [] room)
  /-- Nothing of the answer is there, or not all of it. -/
  | forwarded {q : Query} {m : Bytes} {size : Nat}
      (stage : p.stage = .forwarded) (parsed : p.parsed = some q)
      (received : p.answer.Filled m size) (short : m = [] ∨ m.length < size)
  | writing {conn : C} {a : Bytes}
      (stage : p.stage = .writing) (origin : p.origin = .tcp conn)
      (fits : a.length < 0x10000) (unwritten : p.answer.current ≠ [])
      (suffix : p.answer.current <:+ Bytes.ofNumber 2 a.length ++ a)

structure Sound (id : QueryId) (p : Pending C) : Prop where
  id_eq : p.id = id
  query : p.query.Ordered
  answer : p.answer.Ordered
  atRest : p.AtRest

end Pending

/-- The query is sound if it is still there after the turn. -/
def Turn.Leaves (id : QueryId) (t : Turn C) : Prop := ∀ p ∈ t.entry, p.Sound id

namespace Pending

variable {p p' : Pending C} {id : QueryId} {s : Setting} {host : Host} {memory : Memory}
  {q : Query} {f : Fragment} {a c m : Bytes} {n size : Nat} {op : Operation C}

theorem leaves_gone : (Turn.gone : Turn C).Leaves id := by
  rintro p ⟨⟩

theorem leaves_of_entry {t : Turn C} (he : t.entry = some p) (h : p.Sound id) : t.Leaves id := by
  rintro p' hp
  obtain rfl : p = p' := Option.some.inj (he.symm.trans hp)
  exact h

theorem sendAnswer_leaves (hid : p.id = id) (hq : p.query.Ordered) :
    (p.sendAnswer memory a).Leaves id := by
  cases ho : p.origin with
  | udp listener =>
    rw [sendAnswer_udp ho]
    rintro p ⟨⟩
  | tcp conn =>
    obtain ⟨short, sent⟩ | ⟨fault, sent⟩ := sendAnswer_stream ho memory a
    · rw [sent]
      refine leaves_of_entry rfl
        ⟨hid, hq, WireBuffer.ordered_ofBytes _, .writing rfl ho short ?_ ?_⟩
      · simp [Bytes.ofNumber]
      · simp
    · rw [sent]
      exact leaves_gone

theorem judge_leaves (hid : p.id = id) (hq : p.query.Ordered) (ha : p.answer.Filled [] n) :
    (p.judge s host).Leaves id := by
  suffices h : ∀ admission, (p.settle host admission).Leaves id from h _
  intro admission
  cases admission with
  | drop => exact leaves_gone
  | refuse => exact sendAnswer_leaves hid hq
  | identify => exact sendAnswer_leaves hid hq
  | forward q =>
    unfold settle
    simp only
    split
    · exact leaves_of_entry rfl ⟨hid, hq, ha.ordered, .forwarded rfl rfl ha (.inl rfl)⟩
    · exact sendAnswer_leaves hid hq

theorem Sound.received_leaves (h : p.Sound id) (c : Bytes) :
    (p.received s host c).Leaves id := by
  by_cases hr : p.stage.isReading = true
  case neg =>
    rw [received_elsewhere (by simpa using hr)]
    exact leaves_of_entry rfl h
  by_cases hc : c = []
  case pos =>
    rw [hc, received_nil hr]
    exact leaves_gone
  cases h.atRest with
  | forwarded stage => simp [stage, Stage.isReading] at hr
  | writing stage => simp [stage, Stage.isReading] at hr
  | @readingLength conn m size room stage origin read short enough unanswered =>
    obtain ⟨c, hc', fits, hr⟩ := received_fitting s host read (by omega) hc
    rw [hr]
    by_cases hl : m.length + c.length < 2
    · obtain ⟨b, hb, ht⟩ := received_length_partly s host
        read hc' fits stage hl
      rw [ht]
      exact leaves_of_entry rfl ⟨h.id_eq, hb.ordered, h.answer,
        .readingLength stage origin hb (by simpa using hl) enough unanswered⟩
    · obtain ⟨w, rest, hw⟩ := Bytes.exists_of16_append (m := m ++ c) (by simp; omega)
      cases room : host.memory .query w.toNat with
      | false =>
        rw [received_length_refused s host read hc' fits stage hw room]
        exact leaves_gone
      | true =>
      obtain ⟨b, hb, ht⟩ := received_length_wholly s host
        read hc' fits stage hw room
      rw [ht]
      split
      · exact judge_leaves h.id_eq hb.ordered.flip unanswered
      · next hlt =>
        exact leaves_of_entry rfl ⟨h.id_eq, hb.ordered, h.answer,
          .readingBody rfl origin hb (by simp; omega) unanswered⟩
  | @readingBody conn m size room stage origin read short unanswered =>
    obtain ⟨c, hc', fits, hr⟩ := received_fitting s host read short hc
    rw [hr]
    obtain ⟨b, hb, ht⟩ := received_body s host read hc' fits stage
    rw [ht]
    split
    · exact judge_leaves h.id_eq hb.ordered.flip unanswered
    · exact leaves_of_entry rfl ⟨h.id_eq, hb.ordered, h.answer,
        .readingBody stage origin hb (by simp; omega) unanswered⟩

theorem Sound.wrote_leaves (h : p.Sound id) (n : Nat) : (p.wrote n).Leaves id := by
  cases h.atRest with
  | @writing conn a stage origin fits unwritten suffix =>
    rcases wrote_cases (n := n) stage h.answer with ht | ⟨b, ho, hc, hne, ht⟩
    · rw [ht]
      exact leaves_gone
    · rw [ht]
      exact leaves_of_entry rfl ⟨h.id_eq, h.query, ho,
        .writing stage origin fits hne (hc ▸ (List.drop_suffix n _).trans suffix)⟩
  | readingLength stage => rw [wrote_elsewhere (by simp [stage])]; exact leaves_of_entry rfl h
  | readingBody stage => rw [wrote_elsewhere (by simp [stage])]; exact leaves_of_entry rfl h
  | forwarded stage => rw [wrote_elsewhere (by simp [stage])]; exact leaves_of_entry rfl h

theorem deliver_leaves (hid : p.id = id) (hq : p.query.Ordered) :
    (p.deliver s memory q a).Leaves id := by
  obtain ⟨reply, -, he, -⟩ :=
    deliver_eq_sendAnswer p s memory q a
  intro p' hp
  exact sendAnswer_leaves hid hq p' (he ▸ hp)

theorem Sound.answered_leaves (h : p.Sound id) (f : Fragment) :
    (p.answered s memory f).Leaves id := by
  cases h.atRest with
  | readingLength stage =>
    rw [answered_unexpected (.inl (by simp [stage]))]; exact leaves_of_entry rfl h
  | readingBody stage =>
    rw [answered_unexpected (.inl (by simp [stage]))]; exact leaves_of_entry rfl h
  | writing stage =>
    rw [answered_unexpected (.inl (by simp [stage]))]; exact leaves_of_entry rfl h
  | @forwarded q m size stage parsed received short =>
    have arrival := answered_arrival s memory f stage parsed received
    generalize p.answered s memory f = t at arrival ⊢
    cases arrival with
    | failed => exact sendAnswer_leaves h.id_eq h.query
    | unbuffered => exact sendAnswer_leaves (p := p) h.id_eq h.query
    | partly _ hlt hb =>
      exact leaves_of_entry rfl ⟨h.id_eq, h.query, hb.ordered,
        .forwarded stage parsed hb (.inr (by simpa using hlt))⟩
    | wholly => exact deliver_leaves h.id_eq h.query
    | overrun _ _ hb =>
      refine leaves_of_entry rfl ⟨h.id_eq, h.query, hb.ordered, .forwarded stage parsed hb ?_⟩
      by_cases hm : m = []
      · exact .inl hm
      · rw [if_neg hm]
        exact short

theorem Sound.mapOrigin (h : p.Sound id) (f : C → C) :
    ({ p with origin := p.origin.map f } : Pending C).Sound id := by
  refine ⟨h.id_eq, h.query, h.answer, ?_⟩
  cases h.atRest with
  | readingLength stage origin read short enough unanswered =>
    exact .readingLength stage (by rw [origin, Origin.map]) read short enough unanswered
  | readingBody stage origin read short unanswered =>
    exact .readingBody stage (by rw [origin, Origin.map]) read short unanswered
  | forwarded stage parsed received short => exact .forwarded stage parsed received short
  | writing stage origin fits unwritten suffix =>
    exact .writing stage (by rw [origin, Origin.map]) fits unwritten suffix

theorem Sound.turn_leaves (h : p.Sound id) : (op.turn s host p).Leaves id := by
  cases op with
  | tcpReceived _ chunk => exact h.received_leaves chunk
  | tcpWrote _ count => exact h.wrote_leaves count
  | backendAnswer f => exact h.answered_leaves f
  | mapConnection _ f => exact leaves_of_entry rfl (h.mapOrigin f)
  | _ => exact leaves_gone

end Pending

end ResolverGate
