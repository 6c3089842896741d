import Mathlib.Data.List.Forall2
import ResolverGate.Proofs.Engine.Failure

/-! # How long an answer is

An answer is as long as its fragments declare while none of its octets is there. Once a
fragment has brought some, or has settled the query, what later ones declare is not looked
at. An empty fragment settles nothing: the next one declares the length anew.
-/

namespace ResolverGate

variable {C : Type}

def Operation.redeclared (id : QueryId) (length : UInt16) : Operation C → Operation C
  | .backendAnswer f => .backendAnswer (if f.id = id then { f with answerLength := length } else f)
  | op => op

/-- The steps are given the same, but for the declared length of a fragment for the query
under the id. -/
structure Step.Redeclared (id : QueryId) (s t : Step C) : Prop where
  host : t.host = s.host
  operation : ∃ length, t.operation = s.operation.redeclared id length

structure Step.Alike (s t : Step C) : Prop where
  result : t.result = s.result
  after : t.after = s.after
  effects : t.effects = s.effects

section Sized

variable {p p' : Pending C} {setting : Setting} {host : Host} {memory : Memory} {q : Query}
  {f : Fragment} {op : Operation C} {e e' e₁ e₂ : Engine C} {id : QueryId} {length : UInt16}
  {s : Step C}
  {past before first rest₁ rest₂ steps₁ steps₂ : List (Step C)} {ids : IdSource} {o : Outcome}

/-- The query has been read, and how long its answer is stands, or does not matter. -/
structure Pending.Sized (p : Pending C) : Prop where
  read : p.stage.isReading = false
  started : p.stage = .forwarded → p.answer.position ≠ 0

namespace Pending

theorem sized_of_stage_ne (read : p.stage.isReading = false) (h : p.stage ≠ .forwarded) :
    p.Sized :=
  ⟨read, fun stage => absurd stage h⟩

theorem sized_of_writing (h : p.stage = .writing) : p.Sized :=
  sized_of_stage_ne (by rw [h]; rfl) (by simp [h])

/-- A fragment keeps the length settled, and settles it if it is taken and brings octets or
brings about more than waiting. -/
theorem sized_of_answered (expects : p.Expects) (read : p.stage.isReading = false)
    (starts : p.stage = .forwarded → p.answer.position ≠ 0 ∨
      ∃ o, (p.answered setting memory f).outcome = .ok o ∧ (f.data ≠ [] ∨ o ≠ .waiting))
    (h : p' ∈ (p.answered setting memory f).entry) : p'.Sized := by
  by_cases stage : p.stage = .forwarded
  case neg =>
    rw [answered_unexpected (.inl stage)] at h
    obtain rfl := Option.some.inj h
    exact sized_of_stage_ne read stage
  obtain ⟨q, m, size, parsed, received⟩ := expects stage
  have arrival := answered_arrival setting memory f stage parsed received
  replace starts := starts stage
  rw [received.position_eq, ne_eq, List.length_eq_zero_iff] at starts
  generalize p.answered setting memory f = t at arrival starts h
  cases arrival with
  | failed =>
    obtain ⟨-, b, rfl⟩ := entry_of_sendAnswer h
    exact sized_of_writing rfl
  | unbuffered =>
    obtain ⟨-, b, rfl⟩ := entry_of_sendAnswer (p := p) h
    exact sized_of_writing rfl
  | wholly => exact sized_of_writing (stage_of_deliver h)
  | partly _ _ received' =>
    obtain rfl := Option.some.inj h
    have some : m ++ f.data ≠ [] := by
      rcases starts with some | ⟨o, taken, some | more⟩
      · simp [some]
      · simp [some]
      · exact absurd (Except.ok.inj taken).symm more
    exact ⟨read, fun _ => by rwa [received'.position_eq, ne_eq, List.length_eq_zero_iff]⟩
  | overrun _ _ received' =>
    obtain rfl := Option.some.inj h
    rcases starts with some | ⟨o, taken, -⟩
    · exact ⟨read, fun _ => by rwa [received'.position_eq, ne_eq, List.length_eq_zero_iff]⟩
    · cases taken

theorem Sized.turn (sized : p.Sized) (expects : p.Expects)
    (h : p' ∈ (op.turn setting host p).entry) : p'.Sized := by
  by_cases stage : p.stage = .forwarded
  case neg =>
    have idle : p.Idle op := fun _ _ _ reading => by simp [sized.read] at reading
    have leads := idle.leads expects h
    refine sized_of_stage_ne (leads.settled.2 sized.read) ?_
    cases leads with
    | received stage' => exact absurd stage' stage
    | replied => exact nofun
    | _ => exact stage
  cases op with
  | backendAnswer f =>
    exact sized_of_answered expects sized.read (fun stage => .inl (sized.started stage)) h
  | tcpReceived id chunk =>
    rw [Operation.turn, received_elsewhere sized.read] at h
    obtain rfl := Option.some.inj h
    exact sized
  | tcpWrote id count =>
    rw [Operation.turn, wrote_elsewhere (by simp [stage])] at h
    obtain rfl := Option.some.inj h
    exact sized
  | mapConnection id g =>
    obtain rfl := Option.some.inj h
    exact ⟨sized.read, sized.started⟩
  | _ => simp [Operation.turn, Turn.gone] at h

theorem Sized.answered_redeclared (sized : p.Sized) :
    p.answered setting memory { f with answerLength := length } = p.answered setting memory f := by
  by_cases stage : p.stage = .forwarded
  · have prepared : p.prepareAnswer memory { f with answerLength := length } =
        p.prepareAnswer memory f := by
      rw [prepareAnswer, prepareAnswer, if_neg (sized.started stage), if_neg (sized.started stage)]
    unfold answered
    rw [prepared]
    rfl
  · rw [answered_unexpected (.inl stage), answered_unexpected (.inl stage)]

end Pending

/-- The length of the answer to the query under the id, if there is one, is settled. -/
def Engine.Sized (e : Engine C) (id : QueryId) : Prop :=
  ∀ p, e.table.find? id = some p → p.Sized

theorem Engine.Sized.perform_redeclared (sized : e.Sized id) :
    e.perform host (op.redeclared id length) = e.perform host op := by
  cases op with
  | backendAnswer f =>
    by_cases own : f.id = id
    case neg => rw [Operation.redeclared, if_neg own]
    rw [Operation.redeclared, if_pos own]
    let declared : Fragment := { f with answerLength := length }
    have target : (Operation.backendAnswer f : Operation C).target? = some id := congrArg some own
    have target' : (Operation.backendAnswer declared : Operation C).target? = some id :=
      congrArg some own
    cases hp : e.table.find? id with
    | none =>
      rw [perform_missed target hp, perform_missed target' hp]
      rfl
    | some p =>
      have same : p.answered e.setting host.memory declared = p.answered e.setting host.memory f :=
        (sized p hp).answered_redeclared
      rw [perform_found target hp, perform_found target' hp]
      simp only [Operation.turn, same]
      rfl
  | _ => rfl

theorem Step.sized (h : Accounted past s.before) (absent : ¬ s.Creates id)
    (sized : s.before.Sized id) : s.after.Sized id := by
  intro p' hp'
  cases hp : s.before.table.find? id with
  | none => simp [s.find?_of_absent absent hp] at hp'
  | some p =>
    by_cases ht : s.operation.target? = some id
    · obtain ⟨t, rfl, -, -, -, found⟩ := s.turned ht hp
      rw [found, if_pos rfl] at hp'
      exact (sized p hp).turn (h id p hp).2.expects hp'
    · obtain rfl : p = p' := by simpa [s.find?_of_not_target ht hp] using hp'
      exact sized p hp

theorem Step.sized_of_taken (h : Accounted past s.before)
    (read : ∀ p, s.before.table.find? id = some p → p.stage.isReading = false)
    (op : s.operation = .backendAnswer f) (own : f.id = id) (taken : s.result = .outcome (.ok o))
    (starts : f.data ≠ [] ∨ o ≠ .waiting) : s.after.Sized id := by
  intro p' hp'
  cases hp : s.before.table.find? id with
  | none =>
    obtain ⟨-, after, -⟩ := s.missed (by rw [op, Operation.target?, own]) hp
    simp [after, hp] at hp'
  | some p =>
    obtain ⟨t, rfl, result, -, -, found⟩ := s.answered op own hp
    have outcome := Result.outcome.inj (result.symm.trans taken)
    exact Pending.sized_of_answered (h id p hp).2.expects (read p hp)
      (fun _ => .inr ⟨o, outcome, starts⟩) (found.symm.trans hp')

namespace Run

/-- From where the length is settled, runs that differ in declared lengths are the same. -/
theorem redeclared (history : Run (.fresh ids setting) before e) (sized : e.Sized id)
    (run₁ : Run e steps₁ e₁) (run₂ : Run e steps₂ e₂) (absent : ∀ u ∈ steps₁, ¬ u.Creates id)
    (differ : List.Forall₂ (Step.Redeclared id) steps₁ steps₂) :
    e₂ = e₁ ∧ List.Forall₂ Step.Alike steps₁ steps₂ := by
  induction differ generalizing before e with
  | nil => exact ⟨run₂.nil_inv.trans run₁.nil_inv.symm, .nil⟩
  | @cons s t steps₁ steps₂ first _ ih =>
    obtain ⟨rfl, rest₁⟩ := run₁.uncons
    obtain ⟨start, rest₂⟩ := run₂.uncons
    obtain ⟨length, op⟩ := first.operation
    have performed := t.performed
    rw [start, first.host, op, sized.perform_redeclared, s.performed] at performed
    obtain ⟨result, after, effects⟩ :
        s.result = t.result ∧ s.after = t.after ∧ s.effects = t.effects := by
      simpa using performed
    rw [← after] at rest₂
    obtain ⟨same, alike⟩ := ih history.next
      (s.sized history.accounted (absent s List.mem_cons_self) sized) rest₁ rest₂
      fun u hu => absent u (List.mem_cons_of_mem _ hu)
    exact ⟨same, .cons ⟨result.symm, after.symm, effects.symm⟩ alike⟩

theorem exists_fork (e : Engine Nat) (f g g' : Fragment) : ∃ s u v : Step Nat,
    s.before = e ∧ u.before = s.after ∧ v.before = s.after ∧
      s.host = .plenty ∧ u.host = .plenty ∧ v.host = .plenty ∧
      s.operation = .backendAnswer f ∧ u.operation = .backendAnswer g ∧
      v.operation = .backendAnswer g' ∧ Run e [s, u] u.after ∧ Run e [s, v] v.after := by
  obtain ⟨s, rfl, host, op⟩ := Step.exists_answered e f
  obtain ⟨u, before, host₁, op₁⟩ := Step.exists_answered s.after g
  obtain ⟨v, before', host₂, op₂⟩ := Step.exists_answered s.after g'
  have first : Run s.before [s] s.after := Run.start.next
  exact ⟨s, u, v, rfl, before, before', host, host₁, host₂, op, op₁, op₂,
    .next (before ▸ first), .next (before' ▸ first)⟩

/-- Behind the fragment that brings the first octets of an answer, or that settles the query
without any, declared lengths make no difference to anything. -/
theorem later_lengths_ignored (history : Run (.fresh ids setting) before e)
    (hp : e.table.find? id = some p) (hs : p.stage = .forwarded)
    (run₁ : Run e (first ++ s :: rest₁) e₁) (run₂ : Run e (first ++ s :: rest₂) e₂)
    (op : s.operation = .backendAnswer f) (own : f.id = id) (taken : s.result = .outcome (.ok o))
    (starts : f.data ≠ [] ∨ o ≠ .waiting)
    (absent : ∀ u ∈ first ++ s :: rest₁, ¬ u.Creates id)
    (differ : List.Forall₂ (Step.Redeclared id) rest₁ rest₂) :
    e₂ = e₁ ∧ List.Forall₂ Step.Alike rest₁ rest₂ := by
  obtain ⟨q, _, _, hq, -⟩ := (history.accounted id p hp).2.expects hs
  have reaches : Run e first s.before := run₁.upTo
  have read (p' : Pending C) (hp' : s.before.table.find? id = some p') :
      p'.stage.isReading = false :=
    (history.parsed_of_forwarded hp hs hq reaches
      (fun u hu => absent u (List.mem_append_left _ hu)) hp').2
  have past := history.append reaches
  have sized : s.after.Sized id := Step.sized_of_taken past.accounted read op own taken starts
  exact past.next.redeclared sized run₁.onFrom run₂.onFrom
    (fun u hu => absent u (List.mem_append_right _ (List.mem_cons_of_mem _ hu))) differ

/-- A part of an answer of 12 octets comes, and then the rest, which declares 12 or 99. -/
theorem later_lengths_ignored_rest : ∃ (e e' : Engine Nat) (s u v : Step Nat) (rest : Bytes),
    Run (.fresh (.ofQueue [] 7) .small) [Step.ask] e ∧ e.table.find? ⟨7⟩ = some .asked ∧
      Pending.asked.stage = .forwarded ∧ Run e [s, u] e' ∧ Run e [s, v] e' ∧
      s.operation = .backendAnswer ⟨⟨7⟩, 12, false, false, [0, 0, 0x81, 0x80, 0]⟩ ∧
      s.result = .outcome (.ok .waiting) ∧ rest.length = 7 ∧
      u.operation = .backendAnswer ⟨⟨7⟩, 12, false, false, rest⟩ ∧
      v.operation = .backendAnswer ⟨⟨7⟩, 99, false, false, rest⟩ ∧ u.Alike v := by
  let rest : Bytes := [0, 0, 0, 0, 0, 0, 0]
  let part (length : UInt16) (m : Bytes) : Fragment := ⟨⟨7⟩, length, false, false, m⟩
  obtain ⟨s, u, v, start, -, -, host, host₁, host₂, op, op₁, op₂, run₁, run₂⟩ :=
    exists_fork Step.ask.after
    (part 12 [0, 0, 0x81, 0x80, 0]) (part 12 rest) (part 99 rest)
  have history : Run .small [Step.ask] Step.ask.after := .next (s := .ask) .start
  have found : s.before.table.find? ⟨7⟩ = some .asked := start ▸ Step.find?_ask
  have nothing : Pending.asked.Gathers [] 12 := .inl ⟨rfl, rfl⟩
  have waits : s.result = .outcome (.ok .waiting) :=
    (Step.gathers_more (p := .asked) found rfl rfl nothing op ⟨rfl, rfl, rfl⟩
      (Step.memory_of_plenty host _ _) (by decide)).1
  have absent : ∀ w ∈ [] ++ s :: [u], ¬ w.Creates ⟨7⟩ := by
    intro w hw
    obtain rfl | rfl : w = s ∨ w = u := by simpa using hw
    · exact Step.not_creates_of_target (by rw [op]; rfl)
    · exact Step.not_creates_of_target (by rw [op₁]; rfl)
  have differ : u.Redeclared ⟨7⟩ v := ⟨host₂.trans host₁.symm, 99, by rw [op₁, op₂]; rfl⟩
  have whole₁ : Run Step.ask.after ([] ++ s :: [u]) u.after := run₁
  obtain ⟨same, alike⟩ := history.later_lengths_ignored Step.find?_ask rfl whole₁ run₂ op rfl
    waits (.inl (by simp [part])) absent (.cons differ .nil)
  exact ⟨_, u.after, s, u, v, rest, history, Step.find?_ask, rfl, run₁, same ▸ run₂, op, waits,
    rfl, op₁, op₂, (List.forall₂_cons.mp alike).1⟩

/-- An empty fragment leaves the length of its answer open: with the next one the answer is
there, or is still waited for, as that declares 12 octets or 13. -/
theorem next_length_counts : ∃ (e : Engine Nat) (s u v : Step Nat) (whole : Bytes),
    Run (.fresh (.ofQueue [] 7) .small) [Step.ask] e ∧ e.table.find? ⟨7⟩ = some .asked ∧
      Pending.asked.stage = .forwarded ∧ Run e [s, u] u.after ∧ Run e [s, v] v.after ∧
      s.operation = .backendAnswer ⟨⟨7⟩, 12, false, false, []⟩ ∧
      u.operation = .backendAnswer ⟨⟨7⟩, 12, false, false, whole⟩ ∧
      v.operation = .backendAnswer ⟨⟨7⟩, 13, false, false, whole⟩ ∧ u.Redeclared ⟨7⟩ v ∧
      (∃ d, u.result = .outcome (.ok (.sendDatagram d))) ∧ v.result = .outcome (.ok .waiting) := by
  let whole : Bytes := [0, 0, 0x81, 0x80, 0, 0, 0, 0, 0, 0, 0, 0]
  let part (length : UInt16) (m : Bytes) : Fragment := ⟨⟨7⟩, length, false, false, m⟩
  obtain ⟨s, u, v, start, before, before', host, host₁, host₂, op, op₁, op₂, run₁, run₂⟩ :=
    exists_fork Step.ask.after (part 12 []) (part 12 whole) (part 13 whole)
  have history : Run .small [Step.ask] Step.ask.after := .next (s := .ask) .start
  have found : s.before.table.find? ⟨7⟩ = some .asked := start ▸ Step.find?_ask
  have nothing : Pending.asked.Gathers [] 12 := .inl ⟨rfl, rfl⟩
  obtain ⟨-, -, b, found', gathers⟩ := Step.gathers_more (p := .asked) found rfl rfl nothing op
    ⟨rfl, rfl, rfl⟩ (Step.memory_of_plenty host _ _) (by decide)
  have empty : b.position = 0 := by
    rcases gathers with ⟨-, empty⟩ | ⟨some, -⟩
    · exact empty
    · exact absurd rfl some
  have still (length : UInt16) :
      ({ Pending.asked with answer := b } : Pending Nat).Gathers [] length := .inl ⟨rfl, empty⟩
  obtain ⟨result, -⟩ := Step.gathers_all (p := .asked) (before ▸ found') rfl rfl (still 12) op₁
    ⟨rfl, rfl, rfl⟩ (Step.memory_of_plenty host₁ _ _) rfl rfl rfl
  obtain ⟨waits, -⟩ := Step.gathers_more (p := .asked) (before' ▸ found') rfl rfl (still 13) op₂
    ⟨rfl, rfl, rfl⟩ (Step.memory_of_plenty host₂ _ _) (by decide)
  obtain ⟨reply, -, -, sent⟩ := Pending.deliver_eq_sendAnswer .asked u.before.setting
    u.host.memory .small whole
  rw [Pending.sendAnswer_udp rfl] at sent
  exact ⟨_, s, u, v, whole, history, Step.find?_ask, rfl, run₁, run₂, op, op₁, op₂,
    ⟨host₂.trans host₁.symm, 13, by rw [op₁, op₂]; rfl⟩,
    ⟨_, result.trans (congrArg Result.outcome sent)⟩, waits⟩

end Run

end Sized

end ResolverGate
