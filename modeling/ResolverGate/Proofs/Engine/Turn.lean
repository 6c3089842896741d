import ResolverGate.Proofs.Engine.Fate
import ResolverGate.Proofs.Filling

/-! # The turns of one query

What reading, writing and answering do to a query, in terms of the octets that
its buffers hold.
-/

namespace ResolverGate.Pending

open WireBuffer

variable {C : Type} {p : Pending C} {s : Setting} {host : Host} {memory : Memory} {q : Query}
  {f : Fragment} {a m c : Bytes} {size : Nat} {b : WireBuffer}

/-! ## Answers leave -/

theorem sendAnswer_answer :
    ({ p with answer := b } : Pending C).sendAnswer memory a = p.sendAnswer memory a := by
  unfold sendAnswer
  cases p.origin <;> rfl

theorem deliver_answer :
    ({ p with answer := b } : Pending C).deliver s memory q a = p.deliver s memory q a := by
  unfold deliver
  simp only [sendAnswer_answer]
  rfl

theorem encoded_sendAnswer : (p.sendAnswer memory a).encoded = [] := by
  unfold sendAnswer
  split
  · rfl
  split <;> rfl

theorem encoded_deliver : (p.deliver s memory q a).encoded = [p.encoderCall s q a] := rfl

/-- What is delivered is what the encoder makes of the answer, or SERVFAIL if it fails. -/
theorem deliver_made (p : Pending C) (s : Setting) (memory : Memory) (q : Query) (a : Bytes) :
    ∃ reply, (s.encoder (p.encoderCall s q a) = .ok reply ∨
      (∃ fault, s.encoder (p.encoderCall s q a) = .error fault) ∧
        reply = q.errorReply .servFail) ∧
      (p.deliver s memory q a).entry = (p.sendAnswer memory reply).entry ∧
      (p.deliver s memory q a).outcome = (p.sendAnswer memory reply).outcome := by
  cases he : s.encoder (p.encoderCall s q a) with
  | ok reply =>
    refine ⟨reply, .inl rfl, ?_⟩
    simp [deliver, he]
  | error fault =>
    refine ⟨_, .inr ⟨⟨fault, rfl⟩, rfl⟩, ?_⟩
    simp [deliver, he, Turn.notify]

theorem deliver_eq_sendAnswer (p : Pending C) (s : Setting) (memory : Memory) (q : Query)
    (a : Bytes) :
    ∃ reply, (s.encoder (p.encoderCall s q a) = .ok reply ∨ reply = q.errorReply .servFail) ∧
      (p.deliver s memory q a).entry = (p.sendAnswer memory reply).entry ∧
      (p.deliver s memory q a).outcome = (p.sendAnswer memory reply).outcome := by
  obtain ⟨reply, made, same⟩ := deliver_made p s memory q a
  exact ⟨reply, made.imp_right And.right, same⟩

/-! ## Answers arrive -/

theorem answered_unexpected (h : p.stage ≠ .forwarded ∨ p.parsed = none) :
    p.answered s memory f =
      (Turn.keep p .waiting).notify [.unexpectedAnswer p.id p.stage.text] := by
  unfold answered
  split
  · simp_all
  · rfl

theorem answered_failed (hs : p.stage = .forwarded) (hq : p.parsed = some q)
    (hf : f.fails q = true) :
    p.answered s memory f = p.sendAnswer memory (q.errorReply .servFail) := by
  simp [answered, hs, hq, hf]

theorem prepareAnswer_first (h : p.answer.position = 0)
    (room : memory .answer f.answerLength.toNat = true) :
    ∃ b, p.prepareAnswer memory f = .ok b ∧ b.Filled [] f.answerLength.toNat := by
  refine ⟨_, ?_, filled_replicate _⟩
  rw [prepareAnswer, if_pos h, ofCapacity_of_granted (toNat_le_maxCapacity _) room]

theorem prepareAnswer_refused (h : p.answer.position = 0)
    (full : memory .answer f.answerLength.toNat = false) :
    p.prepareAnswer memory f = .error (.outOfMemory f.answerLength.toNat) := by
  simp [prepareAnswer, h, ofCapacity, full]

theorem prepareAnswer_later (h : p.answer.Filled m size) (hm : m ≠ []) :
    p.prepareAnswer memory f = .ok p.answer := by
  have : ¬ p.answer.position = 0 := by simpa [h.position_eq] using hm
  rw [prepareAnswer, if_neg this]

section Fragment

variable (hs : p.stage = .forwarded) (hq : p.parsed = some q) (hf : f.fails q = false)
  (hp : p.prepareAnswer memory f = .ok b) (hb : b.Filled m size)

include hs hq hf hp hb

theorem answered_overrun (h : size < m.length + f.data.length) :
    p.answered s memory f =
      { Turn.keep { p with answer := b } .waiting with
        outcome := .error (.backendProtocol
          (.overrun f.data.length m.length size p.id)) } := by
  simp [answered, hs, hq, hf, hp, hb.position_eq, hb.capacity_eq, h]

theorem answered_partly (h : m.length + f.data.length < size) :
    ∃ b', b'.Filled (m ++ f.data) size ∧
      p.answered s memory f = .keep { p with answer := b' } .waiting := by
  obtain ⟨b', hw, hb'⟩ := hb.write (Nat.le_of_lt h)
  have hfull : ¬ b'.isFull = true := by
    rw [hb'.isFull_iff, List.length_append]
    omega
  have hover : ¬ size < m.length + f.data.length := by omega
  exact ⟨b', hb', by
    simp [answered, hs, hq, hf, hp, hb.position_eq, hb.capacity_eq, hover, hw, hfull]⟩

theorem answered_wholly (h : m.length + f.data.length = size) :
    p.answered s memory f = p.deliver s memory q (m ++ f.data) := by
  obtain ⟨b', hw, hb'⟩ := hb.write (Nat.le_of_eq h)
  have hfull : b'.isFull = true := by
    rw [hb'.isFull_iff, List.length_append]
    omega
  have hover : ¬ size < m.length + f.data.length := by omega
  rw [← deliver_answer (b := b')]
  simp [answered, hs, hq, hf, hp, hb.position_eq, hb.capacity_eq, hover, hw, hfull,
    hb'.upToLimit_flip]

end Fragment

/-- What a fragment does to a query that awaits `q`'s answer, of which the octets `m` are
there out of `total`. -/
inductive Arrival (p : Pending C) (s : Setting) (memory : Memory) (q : Query) (f : Fragment)
    (m : Bytes) (total : Nat) : Turn C → Prop
  | failed (fails : f.fails q = true) : Arrival p s memory q f m total
      (p.sendAnswer memory (q.errorReply .servFail))
  | unbuffered (intact : f.fails q = false) (first : m = [])
      (full : memory .answer f.answerLength.toNat = false) : Arrival p s memory q f m total
      ((p.sendAnswer memory (q.errorReply .servFail)).notify
        [.notBuffered p.id (.outOfMemory f.answerLength.toNat)])
  | partly {b : WireBuffer} (intact : f.fails q = false)
      (short : m.length + f.data.length < total) (received : b.Filled (m ++ f.data) total)
      (room : m = [] → memory .answer f.answerLength.toNat = true) :
      Arrival p s memory q f m total (.keep { p with answer := b } .waiting)
  | wholly (intact : f.fails q = false) (all : m.length + f.data.length = total)
      (room : m = [] → memory .answer f.answerLength.toNat = true) :
      Arrival p s memory q f m total (p.deliver s memory q (m ++ f.data))
  | overrun {b : WireBuffer} (intact : f.fails q = false)
      (excess : total < m.length + f.data.length) (received : b.Filled m total)
      (room : m = [] → memory .answer f.answerLength.toNat = true) :
      Arrival p s memory q f m total { Turn.keep { p with answer := b } .waiting with
        outcome := .error (.backendProtocol (.overrun f.data.length m.length total p.id)) }

/-- The fragment that the first octets may come with tells how many there will be. -/
theorem answered_arrival (s : Setting) (memory : Memory) (f : Fragment)
    (hs : p.stage = .forwarded) (hq : p.parsed = some q) (received : p.answer.Filled m size) :
    Arrival p s memory q f m (if m = [] then f.answerLength.toNat else size)
      (p.answered s memory f) := by
  cases hf : f.fails q with
  | true =>
    rw [answered_failed hs hq hf]
    exact .failed hf
  | false =>
  have position (hm : m = []) : p.answer.position = 0 := by rw [received.position_eq, hm]; rfl
  by_cases full : m = [] ∧ memory .answer f.answerLength.toNat = false
  · have refused := prepareAnswer_refused (position full.1) full.2
    have turn : p.answered s memory f = (p.sendAnswer memory (q.errorReply .servFail)).notify
        [.notBuffered p.id (.outOfMemory f.answerLength.toNat)] := by
      simp [answered, hs, hq, hf, refused]
    rw [turn]
    exact .unbuffered hf full.1 full.2
  have room (hm : m = []) : memory .answer f.answerLength.toNat = true := by
    simpa [hm] using full
  obtain ⟨b, hp, hb⟩ : ∃ b, p.prepareAnswer memory f = .ok b ∧
      b.Filled m (if m = [] then f.answerLength.toNat else size) := by
    by_cases hm : m = []
    · rw [if_pos hm, hm]
      exact prepareAnswer_first (position hm) (room hm)
    · rw [if_neg hm]
      exact ⟨_, prepareAnswer_later received hm, received⟩
  generalize (if m = [] then f.answerLength.toNat else size) = total at hb ⊢
  rcases Nat.lt_trichotomy (m.length + f.data.length) total with hlt | heq | hgt
  · obtain ⟨b', hb', ht⟩ := answered_partly (s := s) hs hq hf hp hb hlt
    rw [ht]
    exact .partly hf hlt hb' room
  · rw [answered_wholly hs hq hf hp hb heq]
    exact .wholly hf heq room
  · rw [answered_overrun hs hq hf hp hb hgt]
    exact .overrun hf hgt hb room

/-! ## Reading -/

theorem received_elsewhere (h : p.stage.isReading = false) :
    p.received s host c = .keep p .waiting := by
  simp [received, h]

theorem received_nil (h : p.stage.isReading = true) : p.received s host [] = .gone := by
  simp [received, h]

theorem exists_of_enterBody {p' : Pending C} (h : p.enterBody memory = .ok p') :
    ∃ query stage, (p.stage.isReading = true → stage.isReading = true) ∧
      p' = { p with query, stage } := by
  unfold enterBody at h
  split at h
  · split at h
    · simp at h
    split at h
    · simp at h
    split at h
    · simp at h
    · exact ⟨_, .readingBody, fun _ => rfl, (Except.ok.inj h).symm⟩
  · exact ⟨_, _, fun reading => reading, (Except.ok.inj h).symm⟩

theorem received_take (s : Setting) (host : Host) (hc : c ≠ [])
    (ht : c.take p.query.remaining ≠ []) :
    p.received s host c = p.received s host (c.take p.query.remaining) := by
  simp [received, hc, ht, List.take_take]

theorem received_fitting (s : Setting) (host : Host) (hb : p.query.Filled m size)
    (room : m.length < size) (hc : c ≠ []) :
    ∃ c', c' ≠ [] ∧ m.length + c'.length ≤ size ∧
      p.received s host c = p.received s host c' := by
  have hr : p.query.remaining = size - m.length := hb.remaining_eq
  have ht : c.take p.query.remaining ≠ [] := by
    simp [List.take_eq_nil_iff, hc]
    omega
  refine ⟨c.take p.query.remaining, ht, ?_, received_take s host hc ht⟩
  rw [List.length_take]
  omega

theorem received_full (s : Setting) (host : Host) (hs : p.stage = .readingLength)
    (hb : p.query.Filled m size) (short : m.length < 2) (hc : c ≠ [])
    (ht : c.take p.query.remaining = []) :
    ∃ b, b.Filled m size ∧ p.received s host c = .keep { p with query := b } .readMore := by
  obtain ⟨b, hw, hb'⟩ := hb.write (c := []) hb.length_le
  rw [List.append_nil] at hb'
  have hpos : ¬ lengthSize ≤ b.position := by
    rw [hb'.position_eq, lengthSize]
    omega
  exact ⟨b, hb', by simp [received, hs, Stage.isReading, hc, ht, hw, enterBody, hpos]⟩

section Reading

variable (s) (host) (hb : p.query.Filled m size) (hc : c ≠ [])
  (fits : m.length + c.length ≤ size)

include hb hc fits

theorem received_length_partly (hs : p.stage = .readingLength) (short : m.length + c.length < 2) :
    ∃ b, b.Filled (m ++ c) size ∧
      p.received s host c = .keep { p with query := b } .readMore := by
  obtain ⟨b, hw, hb'⟩ := hb.write fits
  have ht : c.take p.query.remaining = c := List.take_of_length_le (by
    rw [hb.remaining_eq]; omega)
  have hpos : ¬ lengthSize ≤ b.position := by
    rw [hb'.position_eq, List.length_append, lengthSize]
    omega
  exact ⟨b, hb', by simp [received, hs, Stage.isReading, hc, ht, hw, enterBody, hpos]⟩

theorem received_length_wholly (hs : p.stage = .readingLength) {w : UInt16} {rest : Bytes}
    (hm : m ++ c = Bytes.of16 w ++ rest) (room : host.memory .query w.toNat = true) :
    ∃ b, b.Filled (rest.take w.toNat) w.toNat ∧
      p.received s host c =
        if w.toNat ≤ rest.length then
          ({ p with query := b.flip, stage := .readingBody } : Pending C).judge s host
        else .keep { p with query := b, stage := .readingBody } .readMore := by
  obtain ⟨b, hw, hb'⟩ := hb.write fits
  have ht : c.take p.query.remaining = c := List.take_of_length_le (by
    rw [hb.remaining_eq]; omega)
  have hpos : lengthSize ≤ b.position := by
    rw [hb'.position_eq, hm, List.length_append, Bytes.length_of16]
    exact Nat.le_add_right _ _
  obtain ⟨b₁, hr, hsur⟩ := readWord?_of_current (hb'.current_flip.trans hm)
  obtain ⟨b₂, hw₂, hb₂⟩ := (filled_replicate w.toNat).write (c := rest.take w.toNat)
    (by simp only [List.length_take, List.length_nil]; omega)
  have hrem : b₂.remaining = 0 ↔ w.toNat ≤ rest.length := by
    rw [hb₂.remaining_eq, List.nil_append, List.length_take]
    omega
  refine ⟨b₂, hb₂, ?_⟩
  simp [received, hs, Stage.isReading, hc, ht, hw, enterBody, hpos, hr, hsur,
    ofCapacity_of_granted (toNat_le_maxCapacity w) room, hw₂, hrem]

theorem received_length_refused (hs : p.stage = .readingLength) {w : UInt16} {rest : Bytes}
    (hm : m ++ c = Bytes.of16 w ++ rest) (full : host.memory .query w.toNat = false) :
    p.received s host c = Turn.gone.notify [.queryDropped p.id (.outOfMemory w.toNat)] := by
  obtain ⟨b, hw, hb'⟩ := hb.write fits
  have ht : c.take p.query.remaining = c := List.take_of_length_le (by
    rw [hb.remaining_eq]; omega)
  have hpos : lengthSize ≤ b.position := by
    rw [hb'.position_eq, hm, List.length_append, Bytes.length_of16]
    exact Nat.le_add_right _ _
  obtain ⟨b₁, hr, hsur⟩ := readWord?_of_current (hb'.current_flip.trans hm)
  simp [received, hs, Stage.isReading, hc, ht, hw, enterBody, hpos, hr, ofCapacity, full]

theorem received_body (hs : p.stage = .readingBody) :
    ∃ b, b.Filled (m ++ c) size ∧
      p.received s host c =
        if m.length + c.length = size then
          ({ p with query := b.flip } : Pending C).judge s host
        else .keep { p with query := b } .readMore := by
  obtain ⟨b, hw, hb'⟩ := hb.write fits
  have ht : c.take p.query.remaining = c := List.take_of_length_le (by
    rw [hb.remaining_eq]; omega)
  have hrem : b.remaining = 0 ↔ m.length + c.length = size := by
    rw [hb'.remaining_eq, List.length_append]
    omega
  refine ⟨b, hb', ?_⟩
  simp [received, hs, Stage.isReading, hc, ht, hw, enterBody, hrem]

end Reading

/-! ## Writing -/

theorem wrote_elsewhere {n : Nat} (h : p.stage ≠ .writing) :
    p.wrote n = .keep p .waiting := if_pos h

section Writing

variable {n : Nat} (hs : p.stage = .writing) (ho : p.answer.Ordered)

include hs ho

theorem wrote_partly (h : n < p.answer.current.length) :
    ∃ b, b.Ordered ∧ b.current = p.answer.current.drop n ∧
      p.wrote n = .keep { p with answer := b } .writeMore := by
  have hn : n ≤ p.answer.remaining := ho.length_current ▸ Nat.le_of_lt h
  have hk : p.answer.skip n = .ok { p.answer with position := p.answer.position + n } :=
    if_pos hn
  obtain ⟨-, hc, hb⟩ := skip_eq_ok hk
  refine ⟨_, hb ho, hc, ?_⟩
  unfold wrote
  rw [if_neg (not_not.mpr hs), hk]
  refine if_neg ?_
  rw [remaining_eq_zero_iff (hb ho), hc, List.drop_eq_nil_iff]
  omega

theorem wrote_wholly (h : p.answer.current.length ≤ n) : p.wrote n = .gone := by
  unfold wrote
  rw [if_neg (not_not.mpr hs)]
  cases hk : p.answer.skip n with
  | error => rfl
  | ok b =>
    obtain ⟨-, hc, hb⟩ := skip_eq_ok hk
    refine if_pos ?_
    rw [remaining_eq_zero_iff (hb ho), hc, List.drop_eq_nil_iff.mpr h]

theorem wrote_cases :
    p.wrote n = .gone ∨
      ∃ b, b.Ordered ∧ b.current = p.answer.current.drop n ∧ b.current ≠ [] ∧
        p.wrote n = .keep { p with answer := b } .writeMore := by
  rcases Nat.lt_or_ge n p.answer.current.length with hlt | hge
  · obtain ⟨b, hb, hc, ht⟩ := wrote_partly hs ho hlt
    refine .inr ⟨b, hb, hc, ?_, ht⟩
    rw [hc, ne_eq, List.drop_eq_nil_iff]
    omega
  · exact .inl (wrote_wholly hs ho hge)

end Writing

end ResolverGate.Pending
