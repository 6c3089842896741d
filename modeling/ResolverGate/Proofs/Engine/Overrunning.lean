import Mathlib.Data.List.Forall2
import ResolverGate.Proofs.Engine.Failure
import ResolverGate.Proofs.Engine.Forwarding

/-! # Answers that overrun

An answer has room for as many octets as the fragment declared that brought the first of
them. A fragment that brings more is a violation by the engine, and the only one that an
answer can be; it leaves every query as it was.
-/

namespace ResolverGate

variable {C : Type}

namespace Pending

def gathered (p : Pending C) : Bytes := p.answer.data.take p.answer.position

/-- How long the answer is once the fragment has come: as long as the fragment says if none
of it is there, and else as long as there is room for. -/
def total (p : Pending C) (f : Fragment) : Nat :=
  if p.gathered = [] then f.answerLength.toNat else p.answer.capacity

/-- The query is as it was, but for room that nothing has been written to. -/
structure Unharmed (p p' : Pending C) : Prop where
  others : p' = { p with answer := p'.answer }
  gathered : p'.gathered = p.gathered

/-- There is room for the answer already, or for as many octets as the fragment says. -/
def Buffers (p : Pending C) (memory : Memory) (f : Fragment) : Prop :=
  p.gathered = [] → memory .answer f.answerLength.toNat = true

end Pending

structure Engine.Unharmed (e e' : Engine C) : Prop where
  others : e' = { e with table.entries := e'.table.entries }
  entries : List.Forall₂ (fun x y => y.1 = x.1 ∧ x.2.Unharmed y.2) e.table.entries e'.table.entries

/-- The fragment does not fail the query `p`, which awaits its answer, and brings more of
it than is to come. -/
structure Engine.Overruns (e : Engine C) (f : Fragment) (p : Pending C) : Prop where
  present : e.table.find? f.id = some p
  awaits : p.stage = .forwarded
  intact : ∃ q, p.parsed = some q ∧
    ¬ (f.srvfail = true ∨ f.bogus = true ∧ q.checkingDisabled = false)
  excess : p.total f < (p.gathered ++ f.data).length

/-- The step brings the first octets of the answer to the query under the id, of as many as
its fragment declares. -/
structure Step.Sizes (s : Step C) (id : QueryId) (length : Nat) : Prop where
  declares : ∃ f, s.operation = .backendAnswer f ∧ f.id = id ∧ f.data ≠ [] ∧
    f.answerLength.toNat = length
  first : ∀ p, s.before.table.find? id = some p → p.gathered = []

/-- One of the steps does so, and the query is still the same at their end. -/
def Sizes (steps : List (Step C)) (id : QueryId) (length : Nat) : Prop :=
  ∃ pre u post, steps = pre ++ u :: post ∧ u.Sizes id length ∧ ∀ v ∈ post, ¬ v.Creates id

section

variable {p p' : Pending C} {setting : Setting} {host : Host} {memory : Memory} {q : Query}
  {f : Fragment} {m chunk : Bytes} {size : Nat} {op : Operation C} {e : Engine C} {fault : Fault}
  {id : QueryId} {s : Step C} {past : List (Step C)} {ids : IdSource}

namespace Pending

theorem gathered_of_filled (received : p.answer.Filled m size) : p.gathered = m :=
  received.upToLimit_flip

/-- What a fragment does to a query that awaits its answer, by what is there of it. -/
theorem Expects.arrival (expects : p.Expects) (setting : Setting) (memory : Memory)
    (f : Fragment) (stage : p.stage = .forwarded) : ∃ q, p.parsed = some q ∧
      Arrival p setting memory q f p.gathered (p.total f) (p.answered setting memory f) := by
  obtain ⟨q, m, size, parsed, received⟩ := expects stage
  have arrival := answered_arrival setting memory f stage parsed received
  rw [← received.capacity_eq, ← gathered_of_filled received] at arrival
  exact ⟨q, parsed, arrival⟩

/-! ## Violations -/

theorem answered_eq_error (expects : p.Expects)
    (h : (p.answered setting memory f).outcome = .error fault) :
    p.stage = .forwarded ∧ (∃ q, p.parsed = some q ∧ f.fails q = false) ∧
      p.total f < (p.gathered ++ f.data).length ∧ p.Buffers memory f := by
  by_cases stage : p.stage = .forwarded
  case neg =>
    rw [answered_unexpected (.inl stage)] at h
    cases h
  obtain ⟨q, parsed, arrival⟩ := expects.arrival setting memory f stage
  generalize p.answered setting memory f = t at arrival h
  cases arrival with
  | failed =>
    obtain ⟨o, taken⟩ := p.sendAnswer_ok memory (q.errorReply .servFail)
    cases taken.symm.trans h
  | unbuffered =>
    obtain ⟨o, taken⟩ := p.sendAnswer_ok memory (q.errorReply .servFail)
    cases taken.symm.trans h
  | partly => cases h
  | wholly =>
    obtain ⟨reply, -, -, outcome⟩ := deliver_eq_sendAnswer p setting memory q
      (p.gathered ++ f.data)
    obtain ⟨o, taken⟩ := p.sendAnswer_ok memory reply
    cases (outcome.trans taken).symm.trans h
  | overrun intact excess _ room =>
    rw [List.length_append]
    exact ⟨stage, ⟨q, parsed, intact⟩, excess, room⟩

theorem answered_of_excess (expects : p.Expects) (setting : Setting)
    (stage : p.stage = .forwarded) (parsed : p.parsed = some q) (intact : f.fails q = false)
    (excess : p.total f < (p.gathered ++ f.data).length) (buffers : p.Buffers memory f) :
    ∃ b, ({ p with answer := b } : Pending C).gathered = p.gathered ∧
      p.answered setting memory f = { Turn.keep { p with answer := b } .waiting with
        outcome := .error (.backendProtocol
          (.overrun f.data.length p.gathered.length (p.total f) p.id)) } := by
  obtain ⟨q', parsed', arrival⟩ := expects.arrival setting memory f stage
  obtain rfl : q = q' := Option.some.inj (parsed.symm.trans parsed')
  rw [List.length_append] at excess
  generalize p.answered setting memory f = t at arrival
  cases arrival with
  | failed fails => simp [fails] at intact
  | unbuffered _ first full => simp [buffers first] at full
  | partly _ short => exact absurd short (Nat.lt_asymm excess)
  | wholly _ all => exact absurd all (Nat.ne_of_gt excess)
  | @overrun b _ _ kept => exact ⟨b, gathered_of_filled kept, rfl⟩

/-! ## Room for an answer -/

theorem answer_of_received (h : p' ∈ (p.received setting host chunk).entry)
    (unsettled : p'.stage ≠ .writing) : p'.answer = p.answer ∧ p.stage ≠ .writing := by
  by_cases reading : p.stage.isReading = true
  case neg =>
    rw [received_elsewhere (Bool.eq_false_iff.mpr reading)] at h
    obtain rfl := Option.some.inj h
    exact ⟨rfl, unsettled⟩
  refine ⟨?_, by rintro writing; simp [writing, Stage.isReading] at reading⟩
  unfold received at h
  rw [if_neg (by simp [reading])] at h
  split at h
  · cases h
  split at h
  · cases h
  split at h
  · cases h
  next entered =>
  obtain ⟨query, stage, -, rfl⟩ := exists_of_enterBody entered
  split at h
  · rcases entry_of_judge h with ⟨q, -, -, rfl⟩ | ⟨-, writing, -⟩
    · rfl
    · exact absurd writing unsettled
  · obtain rfl := Option.some.inj h
    rfl

theorem answer_of_wrote {n : Nat} (h : p' ∈ (p.wrote n).entry) (unsettled : p'.stage ≠ .writing) :
    p'.answer = p.answer ∧ p.stage ≠ .writing := by
  by_cases writing : p.stage = .writing
  case neg =>
    rw [wrote_elsewhere writing] at h
    obtain rfl := Option.some.inj h
    exact ⟨rfl, unsettled⟩
  rcases wrote_keeps (p := p) (n := n) with gone | ⟨p₁, o, keeps, leads, -⟩
  · rw [gone] at h
    cases h
  · rw [keeps] at h
    obtain rfl := Option.some.inj h
    cases leads with
    | received forwarded => simp [writing] at forwarded
    | replied => exact absurd rfl unsettled
    | _ => exact absurd writing unsettled

theorem filled_of_answered (expects : p.Expects) (stage : p.stage = .forwarded)
    (h : p' ∈ (p.answered setting memory f).entry) (unsettled : p'.stage ≠ .writing) :
    p'.answer.Filled p'.gathered (p.total f) ∧
      (p'.gathered = p.gathered ∨ p'.gathered = p.gathered ++ f.data) := by
  obtain ⟨q, parsed, arrival⟩ := expects.arrival setting memory f stage
  generalize p.answered setting memory f = t at arrival h
  cases arrival with
  | failed =>
    obtain ⟨-, b, rfl⟩ := entry_of_sendAnswer h
    exact absurd rfl unsettled
  | unbuffered =>
    obtain ⟨-, b, rfl⟩ := entry_of_sendAnswer (p := p) h
    exact absurd rfl unsettled
  | wholly =>
    obtain ⟨reply, -, entry, -⟩ := deliver_eq_sendAnswer p setting memory q
      (p.gathered ++ f.data)
    obtain ⟨-, b, rfl⟩ := entry_of_sendAnswer (entry ▸ h)
    exact absurd rfl unsettled
  | partly _ _ filled =>
    obtain rfl := Option.some.inj h
    rw [gathered_of_filled filled]
    exact ⟨filled, .inr rfl⟩
  | overrun _ _ filled =>
    obtain rfl := Option.some.inj h
    rw [gathered_of_filled filled]
    exact ⟨filled, .inl rfl⟩

/-- The room for an answer of which something is there stays, until the answer is sent. It was
made when the first octets came. -/
theorem room_of_turn (expects : p.Expects) (h : p' ∈ (op.turn setting host p).entry)
    (unsettled : p'.stage ≠ .writing) (some : p'.gathered ≠ []) :
    (p.stage ≠ .writing ∧ p.gathered ≠ [] ∧ p'.answer.capacity = p.answer.capacity) ∨
      p.gathered = [] ∧ ∃ f, op = .backendAnswer f ∧ f.data ≠ [] ∧
        f.answerLength.toNat = p'.answer.capacity := by
  have kept (same : p'.answer = p.answer) (stage : p.stage ≠ .writing) :
      p.stage ≠ .writing ∧ p.gathered ≠ [] ∧ p'.answer.capacity = p.answer.capacity := by
    rw [gathered, same] at some
    exact ⟨stage, some, congrArg _ same⟩
  cases op with
  | backendAnswer f =>
    rw [Operation.turn] at h
    by_cases stage : p.stage = .forwarded
    case neg =>
      rw [answered_unexpected (.inl stage)] at h
      obtain rfl := Option.some.inj h
      exact .inl (kept rfl unsettled)
    obtain ⟨filled, more⟩ := filled_of_answered expects stage h unsettled
    rw [filled.capacity_eq, total]
    by_cases none : p.gathered = []
    · rw [none, List.nil_append] at more
      exact .inr ⟨none, f, rfl, more.resolve_left some ▸ some, (if_pos none).symm⟩
    · exact .inl ⟨by simp [stage], none, if_neg none⟩
  | tcpReceived id chunk =>
    obtain ⟨same, stage⟩ := answer_of_received h unsettled
    exact .inl (kept same stage)
  | tcpWrote id n =>
    obtain ⟨same, stage⟩ := answer_of_wrote h unsettled
    exact .inl (kept same stage)
  | mapConnection id g =>
    obtain rfl := Option.some.inj h
    exact .inl (kept rfl unsettled)
  | _ => cases h

end Pending

theorem Step.room (h : Accounted past s.before) (hp' : s.after.table.find? id = some p')
    (unsettled : p'.stage ≠ .writing) (there : p'.gathered ≠ []) :
    (∃ p, s.before.table.find? id = some p ∧ p.stage ≠ .writing ∧ p.gathered ≠ [] ∧
      p'.answer.capacity = p.answer.capacity) ∨ s.Sizes id p'.answer.capacity := by
  cases hp : s.before.table.find? id with
  | some p =>
    by_cases ht : s.operation.target? = some id
    case neg =>
      obtain rfl : p = p' := by simpa [s.find?_of_not_target ht hp] using hp'
      exact .inl ⟨p, rfl, unsettled, there, rfl⟩
    obtain ⟨t, rfl, -, -, -, found⟩ := s.turned ht hp
    rw [found, if_pos rfl] at hp'
    rcases Pending.room_of_turn (h id p hp).2.expects hp' unsettled there with
      kept | ⟨first, f, op, some, length⟩
    · exact .inl ⟨p, rfl, kept⟩
    · have own : f.id = id := by simpa [op, Operation.target?] using ht
      refine .inr ⟨⟨f, op, own, some, length⟩, fun p₁ hp₁ => ?_⟩
      obtain rfl : p = p₁ := Option.some.inj (hp.symm.trans hp₁)
      exact first
  | none =>
    -- Of the answer to a query that has just begun there is nothing.
    refine absurd ?_ there
    cases s.shape with
    | datagram _ _ _ turn _ found =>
      rw [found] at hp'
      split at hp'
      · rw [turn] at hp'
        rcases Pending.entry_of_judge hp' with ⟨q, -, -, rfl⟩ | ⟨-, writing, -⟩
        · rfl
        · exact absurd writing unsettled
      · simp [hp] at hp'
    | connection _ _ _ _ found =>
      rw [found] at hp'
      split at hp'
      · obtain rfl := Option.some.inj hp'
        rfl
      · simp [hp] at hp'
    | dropped _ _ _ found => simp [found, hp] at hp'
    | refused _ _ found => simp [found, hp] at hp'
    | turned _ present _ _ found =>
      rw [found] at hp'
      split at hp'
      · next own => simp [← own, hp] at present
      · simp [hp] at hp'
    | missed _ _ _ after => simp [after, hp] at hp'
    | replaced _ _ after =>
      rw [after] at hp'
      cases hp.symm.trans hp'

theorem Sizes.snoc {steps : List (Step C)} {length : Nat} (h : Sizes steps id length)
    (absent : ¬ s.Creates id) : Sizes (steps ++ [s]) id length := by
  obtain ⟨pre, u, post, rfl, sizes, kept⟩ := h
  refine ⟨pre, u, post ++ [s], by simp, sizes, fun v hv => ?_⟩
  rcases List.mem_append.mp hv with hv | hv
  · exact kept v hv
  · rwa [List.mem_singleton.mp hv]

/-- The room for an answer of which something is there was declared with the first octets. -/
theorem Run.sizes {steps : List (Step C)} (run : Run (.fresh ids setting) steps e)
    (hp : e.table.find? id = some p) (unsettled : p.stage ≠ .writing)
    (there : p.gathered ≠ []) : Sizes steps id p.answer.capacity := by
  induction run generalizing p with
  | start => cases hp
  | @next steps s run ih =>
    rcases s.room run.accounted hp unsettled there with ⟨p₀, hp₀, unsettled₀, there₀, same⟩ | sizes
    · rw [same]
      refine (ih hp₀ unsettled₀ there₀).snoc fun ⟨absent, _⟩ => ?_
      simp [hp₀] at absent
    · exact ⟨steps, s, [], rfl, sizes, by simp⟩

namespace Engine

theorem unharmed_update (distinct : e.table.Distinct) (hp : e.table.find? id = some p)
    (kept : p.Unharmed p') :
    e.Unharmed { e with table := e.table.update id p' } := by
  refine ⟨rfl, List.forall₂_map_right_iff.mpr (List.forall₂_same.mpr fun x hx => ?_)⟩
  obtain ⟨k, r⟩ := x
  by_cases own : k = id
  · subst own
    obtain rfl : p = r := Option.some.inj (hp.symm.trans (distinct.find?_of_mem hx))
    simpa using kept
  · simpa [own] using (⟨rfl, rfl⟩ : r.Unharmed r)

variable {past : List (Step C)}

theorem overruns_of_error (accounted : Accounted past e)
    (h : (e.backendAnswer memory f).1 = .error fault) :
    ∃ p, e.Overruns f p ∧ p.Buffers memory f := by
  unfold backendAnswer at h
  split at h
  · cases h
  next p hp =>
  rw [commit_outcome] at h
  obtain ⟨awaits, ⟨q, parsed, intact⟩, excess, buffers⟩ :=
    Pending.answered_eq_error (accounted f.id p hp).2.expects h
  have sound : ¬ (f.srvfail = true ∨ f.bogus = true ∧ q.checkingDisabled = false) := by
    rw [← Fragment.fails_iff, intact]
    exact Bool.false_ne_true
  exact ⟨p, ⟨hp, awaits, ⟨q, parsed, sound⟩, excess⟩, buffers⟩

theorem Overruns.answered (h : e.Overruns f p) (buffers : p.Buffers memory f)
    (distinct : e.table.Distinct) (accounted : Accounted past e) :
    (e.backendAnswer memory f).1 = .error (.backendProtocol
        (.overrun f.data.length p.gathered.length (p.total f) f.id)) ∧
      (e.backendAnswer memory f).2.2 = .none ∧
      e.Unharmed (e.backendAnswer memory f).2.1 := by
  obtain ⟨present, awaits, ⟨q, parsed, intact⟩, excess⟩ := h
  obtain ⟨own, known⟩ := accounted f.id p present
  rw [← Fragment.fails_iff, Bool.not_eq_true] at intact
  obtain ⟨b, gathered, answered⟩ :=
    Pending.answered_of_excess known.expects e.setting awaits parsed intact excess buffers
  rw [backendAnswer, present]
  simp only [answered, commit_eq]
  exact ⟨by rw [own], rfl, unharmed_update distinct present ⟨rfl, gathered⟩⟩

end Engine

/-- A fragment is a violation just when it overruns the answer that it is for, if that can be
buffered. Nothing comes of it then and every query stays as it was. What an answer may come to
is what its fragment says that brings the first octets. -/
theorem Run.violations_detected {steps : List (Step C)}
    (run : Run (.fresh ids setting) steps e) (memory : Memory) (f : Fragment) :
    ((∃ fault, (e.backendAnswer memory f).1 = .error fault) ↔
        ∃ p, e.Overruns f p ∧ p.Buffers memory f) ∧
      (∀ p, e.Overruns f p → p.Buffers memory f →
        (e.backendAnswer memory f).1 = .error (.backendProtocol
          (.overrun f.data.length p.gathered.length (p.total f) f.id)) ∧
        (e.backendAnswer memory f).2.2 = .none ∧ e.Unharmed (e.backendAnswer memory f).2.1) ∧
      ∀ id p, e.table.find? id = some p → p.stage = .forwarded → p.gathered ≠ [] →
        Sizes steps id p.answer.capacity := by
  have distinct := run.distinct Engine.distinct_fresh
  refine ⟨⟨fun ⟨fault, h⟩ => Engine.overruns_of_error run.accounted h, fun ⟨p, h, buffers⟩ => ?_⟩,
    fun p h buffers => h.answered buffers distinct run.accounted,
    fun id p hp stage => run.sizes hp (by simp [stage])⟩
  exact ⟨_, (h.answered buffers distinct run.accounted).1⟩

/-- Of an answer of 12 octets 5 are there, and 8 more come. -/
theorem Run.violations_detected_late : ∃ (e : Engine Nat) (s : Step Nat) (p : Pending Nat)
    (f : Fragment), Run (.fresh (.ofQueue [] 7) .small) [Step.ask, s] e ∧
      e.table.find? ⟨7⟩ = some p ∧ p.stage = .forwarded ∧ p.gathered.length = 5 ∧
      e.Overruns f p ∧
      (e.backendAnswer .plenty f).1 = .error (.backendProtocol (.overrun 8 5 12 ⟨7⟩)) ∧
      e.Unharmed (e.backendAnswer .plenty f).2.1 ∧ Sizes [Step.ask, s] ⟨7⟩ 12 := by
  let part : Fragment := ⟨⟨7⟩, 12, false, false, [0, 0, 0x81, 0x80, 0]⟩
  let rest : Fragment := ⟨⟨7⟩, 12, false, false, [0, 0, 0, 0, 0, 0, 0, 0]⟩
  obtain ⟨s, before, host, op⟩ := Step.exists_answered Step.ask.after part
  have history : Run .small [Step.ask] s.before := before ▸ .next (s := .ask) .start
  have found : s.before.table.find? ⟨7⟩ = some .asked := before ▸ Step.find?_ask
  have nothing : Pending.asked.Gathers [] 12 := .inl ⟨rfl, rfl⟩
  obtain ⟨-, -, b, found', gathers⟩ :=
    Step.gathers_more (p := .asked) found rfl rfl nothing op ⟨rfl, rfl, rfl⟩
      (Step.memory_of_plenty host _ _) (by decide)
  have filled : b.Filled part.data 12 := (gathers.resolve_left (by simp [part])).2
  let p : Pending Nat := { Pending.asked with answer := b }
  have there : p.gathered = part.data := Pending.gathered_of_filled filled
  have some : p.gathered ≠ [] := by simp [there, part]
  have total : p.total rest = 12 := (if_neg some).trans filled.capacity_eq
  have overruns : s.after.Overruns rest p :=
    ⟨found', rfl, ⟨.small, rfl, by simp [rest]⟩, by simp [total, there, part, rest]⟩
  obtain ⟨-, detected, sized⟩ := history.next.violations_detected .plenty rest
  obtain ⟨error, -, unharmed⟩ := detected p overruns fun _ => rfl
  have declared := sized ⟨7⟩ p found' rfl some
  rw [show p.answer.capacity = 12 from filled.capacity_eq] at declared
  rw [total, there] at error
  exact ⟨_, s, p, rest, history.next, found', rfl, congrArg List.length there, overruns, error,
    unharmed, declared⟩

end

end ResolverGate
