import Mathlib.Data.List.TakeDrop
import ResolverGate.Proofs.Engine.Replying
import ResolverGate.Proofs.Engine.Telling

/-! # Writing an answer

An answer that is ready for a connection is written behind its length in whatever parts the
connection takes. What is written and what is left make up the framed answer all along, and
the query is gone with its last octet.
-/

namespace ResolverGate

variable {C : Type}

/-- The step makes a reply for the query under the id: admission's reply to the message that
is complete, what the encoder makes of an answer, or SERVFAIL if it makes nothing of it or is
not asked. -/
inductive Step.Makes (s : Step C) (id : QueryId) : Bytes → Prop
  | admitted {m reply : Bytes} (judged : s.effects.judged = [m])
      (fate : (s.before.setting.policy.judge m).fate s.host.backend id = .replied reply) :
      Makes s id reply
  | encoded {call : EncoderCall} {reply : Bytes} (called : call ∈ s.effects.encoded)
      (made : s.before.setting.encoder call = .ok reply) : Makes s id reply
  | failed {p : Pending C} {q : Query} (present : s.before.table.find? id = some p)
      (parsed : p.parsed = some q)
      (failed : ∀ call ∈ s.effects.encoded, ∃ fault, s.before.setting.encoder call = .error fault) :
      Makes s id (q.errorReply .servFail)

/-- The octets that the step says were written on the connection under the id: so many of
those that are left. -/
def Step.writes (s : Step C) (id : QueryId) : Bytes :=
  match s.operation, s.before.tcpPendingWrite id with
  | .tcpWrote id' n, some rest => if id' = id then rest.take n else []
  | _, _ => []

def written (steps : List (Step C)) (id : QueryId) : Bytes := steps.flatMap (·.writes id)

/-- The step ends the query under the id, whatever its stage. -/
def Step.Ends (s : Step C) (id : QueryId) : Prop :=
  s.operation = .expire id ∨ s.operation = .release id

/-- The connection is closed and the query gone, and that is all that the step does. -/
structure Step.Closes (s : Step C) (id : QueryId) : Prop where
  result : s.result = .outcome (.ok .released)
  gone : s.after.table.find? id = none
  closed : s.after.tcpPendingWrite id = none
  effects : { s.effects with dropped := [] } = (Effects.none : Effects C)

/-- Of its framed answer, the query has `rest` left to write. -/
structure Pending.Unwritten (p : Pending C) (rest : Bytes) : Prop where
  stage : p.stage = .writing
  ordered : p.answer.Ordered
  left : p.answer.current = rest

theorem written_snoc (steps : List (Step C)) (s : Step C) (id : QueryId) :
    written (steps ++ [s]) id = written steps id ++ s.writes id := by
  simp [written]

namespace Step

variable {s : Step C} {past : List (Step C)} {id : QueryId} {p : Pending C} {rest : Bytes}
  {n : Nat}

/-! ## The answer becomes ready -/

theorem exists_made (accounted : Accounted past s.before) (about : s.about? = some id)
    (starts : s.result = .outcome (.ok .startWriting)) :
    ∃ (p : Pending C) (reply : Bytes), s.Makes id reply ∧
      (p.sendAnswer s.host.memory reply).outcome = .ok .startWriting ∧
      s.after.table.find? id = (p.sendAnswer s.host.memory reply).entry := by
  cases s.course accounted with
  | @completes c p t completion judges =>
    obtain rfl : c.id = id := Option.some.inj ((about?_of_completion completion).symm.trans about)
    obtain ⟨rfl, -⟩ := completion?_cases completion
    have outcome := Result.outcome.inj (judges.result.symm.trans starts)
    obtain ⟨reply, fate⟩ := judges.replied outcome rfl
    have judged : c.step.effects.judged = [c.message] := by
      rw [judges.effects, judges.turn, ← judges.message]
      rfl
    obtain ⟨parsed, ns, sends⟩ := Pending.settle_replied (judges.own.symm ▸ fate)
    obtain ⟨entry, settled, -⟩ := judges.settled
    rw [sends] at entry settled
    exact ⟨{ p with parsed }, reply, .admitted judged fate, settled.symm.trans outcome,
      (judges.found c.id).trans ((if_pos rfl).trans entry)⟩
  | goesOn _ _ _ _ replies =>
    obtain ⟨f, p, op, present, stage⟩ := replies _ starts rfl
    obtain rfl : f.id = id := by simpa [about?, op, Operation.target?] using about
    obtain ⟨q, got, size, parsed, received⟩ := (accounted f.id p present).2.expects stage
    obtain ⟨t, turn, result, -, effects, found⟩ := s.answered op rfl present
    subst turn
    have outcome := Result.outcome.inj (result.symm.trans starts)
    obtain ⟨reply, made, entry, same⟩ := Pending.answered_made stage parsed received outcome rfl
    refine ⟨p, reply, ?_, same.symm.trans outcome, found.trans entry⟩
    rcases made with ⟨call, called, made⟩ | ⟨failed, rfl⟩
    · exact .encoded (effects ▸ called) made
    · exact .failed present parsed (effects ▸ failed)

/-! ## It is written -/

theorem writes_elsewhere (h : ∀ n, s.operation ≠ .tcpWrote id n) : s.writes id = [] := by
  unfold writes
  split
  · next id' n rest op left => exact if_neg fun own : id' = id => h n (own ▸ op)
  · rfl

section Unwritten

variable (present : s.before.table.find? id = some p) (unwritten : p.Unwritten rest)

include present unwritten

theorem pending_of_unwritten : s.before.tcpPendingWrite id = some rest := by
  rw [Engine.tcpPendingWrite_of_writing present unwritten.stage, unwritten.left]

theorem writes_eq (op : s.operation = .tcpWrote id n) : s.writes id = rest.take n := by
  rw [writes, op, pending_of_unwritten present unwritten]
  exact if_pos rfl

theorem writes_prefix : s.writes id <+: rest := by
  by_cases own : ∃ n, s.operation = .tcpWrote id n
  · obtain ⟨n, op⟩ := own
    rw [writes_eq present unwritten op]
    exact List.take_prefix n rest
  · rw [writes_elsewhere fun n op => own ⟨n, op⟩]
    exact List.nil_prefix

theorem wrote_partly (op : s.operation = .tcpWrote id n) (short : n < rest.length) :
    s.result = .outcome (.ok .writeMore) ∧ s.effects = .none ∧
      ∃ p', s.after.table.find? id = some p' ∧ p'.Unwritten (rest.drop n) := by
  obtain ⟨stage, ordered, rfl⟩ := unwritten
  obtain ⟨t, turn, result, -, effects, found⟩ := s.turned (by rw [op]; rfl) present
  obtain ⟨b, hb, left, ht⟩ := Pending.wrote_partly stage ordered short
  rw [op] at turn result
  obtain rfl : t = Turn.keep { p with answer := b } .writeMore := turn.trans ht
  exact ⟨result, effects, _, (found id).trans (if_pos rfl), stage, hb, left⟩

theorem wrote_wholly (op : s.operation = .tcpWrote id n) (all : rest.length ≤ n) :
    s.Closes id := by
  obtain ⟨stage, ordered, rfl⟩ := unwritten
  obtain ⟨t, turn, result, -, effects, found⟩ := s.turned (by rw [op]; rfl) present
  rw [op] at turn result
  obtain rfl : t = Turn.gone := turn.trans (Pending.wrote_wholly stage ordered all)
  have gone : s.after.table.find? id = none := (found id).trans (if_pos rfl)
  exact ⟨result, gone, by simp [Engine.tcpPendingWrite, gone], by rw [effects]; rfl⟩

/-- Nothing else that happens to the query makes a difference to what is left to write. -/
theorem unwritten_drop (goesOn : ¬ s.Ends id) (short : (s.writes id).length < rest.length) :
    ∃ p', s.after.table.find? id = some p' ∧ p'.Unwritten (rest.drop (s.writes id).length) := by
  by_cases target : s.operation.target? = some id
  case neg =>
    rw [writes_elsewhere fun n op => target (by rw [op, Operation.target?])]
    exact ⟨p, s.find?_of_not_target target present, unwritten⟩
  obtain ⟨t, turn, -, -, -, found⟩ := s.turned target present
  replace found : s.after.table.find? id = t.entry := (found id).trans (if_pos rfl)
  -- At this stage only a count of octets written moves the query on.
  have stage := unwritten.stage
  cases op : s.operation with
  | tcpWrote id' n =>
    obtain rfl : id' = id := by simpa [op, Operation.target?] using target
    have writes := writes_eq present unwritten op
    have fits : n < rest.length := by
      rw [writes, List.length_take] at short
      omega
    rw [writes, List.length_take, Nat.min_eq_left fits.le]
    exact (wrote_partly present unwritten op fits).2.2
  | tcpReceived id' chunk =>
    rw [op, Operation.turn, Pending.received_elsewhere (by rw [stage]; rfl)] at turn
    rw [turn] at found
    exact ⟨p, found, by simpa [writes, op] using unwritten⟩
  | backendAnswer f =>
    rw [op, Operation.turn, Pending.answered_unexpected (.inl (by simp [stage]))] at turn
    rw [turn] at found
    exact ⟨p, found, by simpa [writes, op] using unwritten⟩
  | mapConnection id' f =>
    rw [op] at turn
    rw [turn] at found
    refine ⟨_, found, stage, unwritten.ordered, ?_⟩
    simpa [writes, op] using unwritten.left
  | expire id' =>
    obtain rfl : id' = id := by simpa [op, Operation.target?] using target
    exact absurd (.inl op) goesOn
  | release id' =>
    obtain rfl : id' = id := by simpa [op, Operation.target?] using target
    exact absurd (.inr op) goesOn
  | _ => simp [op, Operation.target?] at target

/-- Chunks and fragments come too late, and change nothing. -/
theorem late_ignored (distinct : s.before.table.Distinct)
    (late : (∃ chunk, s.operation = .tcpReceived id chunk) ∨
      ∃ f, s.operation = .backendAnswer f ∧ f.id = id) :
    s.result = .outcome (.ok .waiting) ∧ s.after = s.before ∧
      { s.effects with notices := [] } = (Effects.none : Effects C) := by
  rcases late with ⟨chunk, op⟩ | ⟨f, op, rfl⟩
  · have ignored := s.ignored distinct (by rw [op]; rfl) present
      (by simp [op, Operation.Expects, unwritten.stage, Stage.isReading])
    rwa [op] at ignored
  · have ignored := s.ignored distinct (by rw [op]; rfl) present
      (by simp [op, Operation.Expects, unwritten.stage])
    rwa [op] at ignored

end Unwritten

end Step

theorem Pending.sendAnswer_unwritten {p : Pending C} {memory : Memory} {reply : Bytes}
    (starts : (p.sendAnswer memory reply).outcome = .ok .startWriting) :
    reply.length < 0x10000 ∧
      ∃ p', (p.sendAnswer memory reply).entry = some p' ∧ p'.Unwritten (framed reply) := by
  cases origin : p.origin with
  | udp listener => simp [sendAnswer_udp origin] at starts
  | tcp conn =>
    obtain ⟨short, sent⟩ | ⟨fault, sent⟩ := sendAnswer_stream origin memory reply
    · rw [sent]
      exact ⟨short, _, rfl, rfl, WireBuffer.ordered_ofBytes _, WireBuffer.current_ofBytes _⟩
    · rw [sent] at starts
      simp [Turn.notify, Turn.gone] at starts

namespace Run

variable {ids : IdSource} {setting : Setting} {past steps : List (Step C)} {ready : Step C}
  {e e' : Engine C} {id : QueryId} {p : Pending C} {whole : Bytes}

theorem written_append (run : Run e steps e') (present : e.table.find? id = some p)
    (unwritten : p.Unwritten whole) (goesOn : ∀ u ∈ steps, ¬ u.Ends id)
    (short : (written steps id).length < whole.length) :
    ∃ p' rest, e'.table.find? id = some p' ∧ p'.Unwritten rest ∧
      written steps id ++ rest = whole := by
  induction run with
  | start => exact ⟨p, whole, present, unwritten, rfl⟩
  | @next steps s run ih =>
    rw [written_snoc, List.length_append] at short
    obtain ⟨p', rest, present', unwritten', all⟩ :=
      ih (fun u hu => goesOn u (List.mem_append_left _ hu)) (by omega)
    have length := congrArg List.length all
    rw [List.length_append] at length
    obtain ⟨p'', present'', unwritten''⟩ := Step.unwritten_drop present' unwritten'
      (goesOn s (by simp)) (by omega)
    have part := List.prefix_iff_eq_append.mp (Step.writes_prefix present' unwritten')
    refine ⟨p'', _, present'', unwritten'', ?_⟩
    rw [written_snoc, List.append_assoc, part, all]

/-- Once an answer is ready for a connection, exactly the framed answer is written, however
much of it the connection takes at a time and whatever happens in between. -/
theorem answer_written (history : Run (.fresh ids setting) past ready.before)
    (about : ready.about? = some id) (starts : ready.result = .outcome (.ok .startWriting)) :
    ∃ a, a.length < 0x10000 ∧ ready.Makes id a ∧
      ready.after.tcpPendingWrite id = some (framed a) ∧
      ∀ (steps : List (Step C)) (s : Step C), Run ready.after steps s.before →
        (∀ u ∈ steps, ¬ u.Ends id) → (written steps id).length < (framed a).length →
        ∃ rest, rest ≠ [] ∧ s.before.tcpPendingWrite id = some rest ∧
          written steps id ++ rest = framed a ∧
          (∀ n, s.operation = .tcpWrote id n → n ≤ rest.length →
            written (steps ++ [s]) id <+: framed a ∧
            (written (steps ++ [s]) id ≠ framed a → s.result = .outcome (.ok .writeMore) ∧
              s.effects = .none ∧ s.after.tcpPendingWrite id = some (rest.drop n)) ∧
            (written (steps ++ [s]) id = framed a → s.Closes id)) ∧
          (∀ n, s.operation = .tcpWrote id n → rest.length < n → s.Closes id) ∧
          ((∃ chunk, s.operation = .tcpReceived id chunk) ∨
              (∃ f, s.operation = .backendAnswer f ∧ f.id = id) →
            s.result = .outcome (.ok .waiting) ∧ s.after = s.before ∧
              { s.effects with notices := [] } = .none) := by
  obtain ⟨p₀, a, makes, outcome, found⟩ := Step.exists_made history.accounted about starts
  obtain ⟨fits, p, entry, unwritten⟩ := Pending.sendAnswer_unwritten outcome
  have present := found.trans entry
  refine ⟨a, fits, makes, ?_, fun steps s run goesOn short => ?_⟩
  · rw [Engine.tcpPendingWrite_of_writing present unwritten.stage, unwritten.left]
  obtain ⟨p', rest, present', unwritten', all⟩ := run.written_append present unwritten goesOn short
  have distinct := (history.next.append run).distinct Engine.distinct_fresh
  refine ⟨rest, ?_, Step.pending_of_unwritten present' unwritten', all, fun n op most => ?_,
    fun n op more => Step.wrote_wholly present' unwritten' op more.le,
    Step.late_ignored present' unwritten' distinct⟩
  · rintro rfl
    rw [List.append_nil] at all
    exact absurd short (all ▸ Nat.lt_irrefl _)
  · rw [written_snoc, Step.writes_eq present' unwritten' op, ← all, ne_eq,
      List.append_cancel_left_eq, List.prefix_append_right_inj, List.take_eq_self_iff]
    refine ⟨List.take_prefix n rest, fun part => ?_, fun whole => ?_⟩
    · obtain ⟨result, effects, p'', present'', unwritten''⟩ :=
        Step.wrote_partly present' unwritten' op (by omega)
      refine ⟨result, effects, ?_⟩
      rw [Engine.tcpPendingWrite_of_writing present'' unwritten''.stage, unwritten''.left]
    · exact Step.wrote_wholly present' unwritten' op whole

/-- SERVFAIL for a message that the channel does not take is written in two parts. -/
theorem answer_written_in_two : ∃ (past steps : List (Step Nat)) (ready s : Step Nat) (a : Bytes),
    Run (.fresh (.ofQueue [] 7) .small) past ready.before ∧ ready.about? = some ⟨7⟩ ∧
      ready.result = .outcome (.ok .startWriting) ∧ ready.Makes ⟨7⟩ a ∧
      Run ready.after steps s.before ∧ (written steps ⟨7⟩).length = 1 ∧
      written (steps ++ [s]) ⟨7⟩ = framed a ∧ s.Closes ⟨7⟩ := by
  let length : Step Nat :=
    ⟨Step.connect.after, .plenty, .tcpReceived ⟨7⟩ [0, 19], _, _, _, rfl⟩
  let reading : Pending Nat :=
    { Pending.ofConnection ⟨7⟩ .loopback 5 ⟨List.replicate 19 0, 0, 19⟩ with
      stage := .readingBody }
  have present : length.after.table.find? ⟨7⟩ = some reading := rfl
  let ready : Step Nat := ⟨length.after, ⟨.allowing (some 0), .plenty⟩,
    .tcpReceived ⟨7⟩ Query.smallMessage, _, _, _, Engine.perform_found rfl present⟩
  have starts : ready.result = .outcome (.ok .startWriting) := by
    obtain ⟨b, read, judged⟩ := Pending.received_body (p := reading) (c := Query.smallMessage)
      .small ready.host (WireBuffer.filled_replicate 19) (by decide) (by decide) rfl
    let complete : Pending Nat := { reading with query := b.flip }
    have fate : (Setting.small.policy.judge complete.query.upToLimit).fate ready.host.backend ⟨7⟩ =
        .replied (Query.small.errorReply .servFail) := by
      rw [read.upToLimit_flip, List.nil_append,
        show Setting.small.policy = ⟨.empty, false⟩ from rfl, Policy.judge_smallMessage]
      rfl
    obtain ⟨parsed, ns, sends⟩ := Pending.settle_replied (p := complete) fate
    change Result.outcome (reading.received .small ready.host Query.smallMessage).outcome = _
    rw [judged, if_pos (by decide)]
    change Result.outcome (complete.settle ready.host
      (Setting.small.policy.judge complete.query.upToLimit)).outcome = _
    rw [sends, Pending.sendAnswer_tcp (p := { complete with parsed }) rfl (by decide) rfl]
    rfl
  have connected : Run .small [Step.connect] length.before := .next (s := .connect) .start
  have history : Run .small [Step.connect, length] ready.before := connected.next
  obtain ⟨a, -, makes, -, writes⟩ := history.answer_written rfl starts
  obtain ⟨first, at_once, -, op⟩ := Step.exists_of_target ready.after .plenty
    (show (Operation.tcpWrote ⟨7⟩ 1).target? = some ⟨7⟩ from rfl)
  have two : (framed a).length = a.length + 2 := by
    rw [framed, List.length_append, Bytes.length_ofNumber, Nat.add_comm]
  obtain ⟨whole, -, left, all, -⟩ := writes [] first (at_once ▸ .start) (by simp)
    (by rw [two]; exact Nat.succ_pos _)
  obtain rfl : whole = framed a := all
  have one : written [first] ⟨7⟩ = (framed a).take 1 := by
    simp [written, Step.writes, op, left]
  obtain ⟨last, next, -, op'⟩ := Step.exists_of_target first.after .plenty
    (show (Operation.tcpWrote ⟨7⟩ (a.length + 1)).target? = some ⟨7⟩ from rfl)
  have run : Run ready.after [first] last.before := by
    rw [next, ← at_once]
    exact .next (s := first) .start
  have short : (written [first] ⟨7⟩).length = 1 := by
    rw [one, List.length_take, two]
    omega
  obtain ⟨rest, -, left', all', part, -⟩ := writes [first] last run (by simp [Step.Ends, op])
    (by omega)
  have enough : rest.length = a.length + 1 := by
    have := congrArg List.length all'
    rw [List.length_append, short, two] at this
    omega
  obtain ⟨-, -, closes⟩ := part _ op' enough.ge
  have whole : written ([first] ++ [last]) ⟨7⟩ = framed a := by
    rw [written_snoc, ← all']
    simp [Step.writes, op', left', ← enough]
  exact ⟨_, [first], ready, last, a, history, rfl, starts, makes, run, short, whole, closes whole⟩

end Run

end ResolverGate
