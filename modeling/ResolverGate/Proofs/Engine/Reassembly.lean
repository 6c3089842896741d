import ResolverGate.Proofs.Engine.Telling

/-! # Putting an answer together

An answer that comes in fragments is encoded and sent once its last octet is
there, as if it had come in one piece. Empty fragments make no difference, and
what other queries do in between makes none either.
-/

namespace ResolverGate

variable {C : Type}

/-- The fragment is one of an answer of that length, which the engine has not failed. -/
structure Fragment.Continues (f : Fragment) (q : Query) (id : QueryId) (length : UInt16) :
    Prop where
  id_eq : f.id = id
  length_eq : f.answerLength = length
  intact : f.fails q = false

namespace Pending

variable {p p' : Pending C} {s : Setting} {memory : Memory} {q : Query} {f : Fragment}
  {got : Bytes} {id : QueryId} {length : UInt16}

def Gathers (p : Pending C) (got : Bytes) (length : UInt16) : Prop :=
  (got = [] ∧ p.answer.position = 0) ∨ (got ≠ [] ∧ p.answer.Filled got length.toNat)

theorem Gathers.prepared (h : p.Gathers got length) (hf : f.answerLength = length)
    (room : memory .answer length.toNat = true) :
    ∃ b, p.prepareAnswer memory f = .ok b ∧ b.Filled got length.toNat := by
  rcases h with ⟨rfl, hp⟩ | ⟨hg, hb⟩
  · subst hf
    exact prepareAnswer_first hp room
  · exact ⟨p.answer, prepareAnswer_later hb hg, hb⟩

theorem gathers_of_filled {b : WireBuffer} (h : b.Filled got length.toNat) :
    ({ p with answer := b } : Pending C).Gathers got length := by
  by_cases hg : got = []
  · exact .inl ⟨hg, by rw [h.position_eq, hg]; rfl⟩
  · exact .inr ⟨hg, h⟩

section Fragment

variable (hs : p.stage = .forwarded) (hq : p.parsed = some q) (hg : p.Gathers got length)
  (hf : f.Continues q id length) (room : memory .answer length.toNat = true)

include hs hq hg hf room

theorem gathers_more (short : (got ++ f.data).length < length.toNat) :
    ∃ b, p.answered s memory f = .keep { p with answer := b } .waiting ∧
      ({ p with answer := b } : Pending C).Gathers (got ++ f.data) length := by
  obtain ⟨b, hp, hb⟩ := hg.prepared hf.length_eq room
  rw [List.length_append] at short
  obtain ⟨b', hb', ht⟩ := answered_partly (s := s) hs hq hf.intact hp hb short
  exact ⟨b', ht, gathers_of_filled hb'⟩

theorem gathers_all (whole : (got ++ f.data).length = length.toNat) :
    p.answered s memory f = p.deliver s memory q (got ++ f.data) := by
  obtain ⟨b, hp, hb⟩ := hg.prepared hf.length_eq room
  rw [List.length_append] at whole
  exact answered_wholly hs hq hf.intact hp hb whole

end Fragment

theorem stage_of_deliver {a : Bytes} (h : (p.deliver s memory q a).entry = some p') :
    p'.stage = .writing := by
  obtain ⟨reply, -, he, -⟩ :=
    deliver_eq_sendAnswer p s memory q a
  rw [he] at h
  cases ho : p.origin with
  | udp listener => simp [sendAnswer_udp ho] at h
  | tcp conn =>
    obtain ⟨-, sent⟩ | ⟨fault, sent⟩ := sendAnswer_stream ho memory reply
    · rw [sent] at h
      exact Option.some.inj h ▸ rfl
    · rw [sent] at h
      simp [Turn.gone, Turn.notify] at h

end Pending

namespace Step

variable {s : Step C} {id : QueryId} {p : Pending C} {b : WireBuffer} {q : Query} {f : Fragment}
  {got whole : Bytes} {length : UInt16} {setting : Setting} {policy : Policy}
  {memory : Memory}

section Awaiting

variable (hp : s.before.table.find? id = some { p with answer := b }) (hs : p.stage = .forwarded)
  (hq : p.parsed = some q) (hg : ({ p with answer := b } : Pending C).Gathers got length)
  (op : s.operation = .backendAnswer f) (hf : f.Continues q id length)
  (room : s.host.memory .answer length.toNat = true)

include hp hs hq hg op hf room

theorem gathers_more (short : (got ++ f.data).length < length.toNat) :
    s.result = .outcome (.ok .waiting) ∧ s.effects = .none ∧
      ∃ b, s.after.table.find? id = some { p with answer := b } ∧
        ({ p with answer := b } : Pending C).Gathers (got ++ f.data) length := by
  obtain ⟨t, turn, result, -, effects, found⟩ := s.answered op hf.id_eq hp
  obtain ⟨b', ha, hg'⟩ := Pending.gathers_more (p := { p with answer := b })
    (s := s.before.setting) hs hq hg hf room short
  replace turn : t = Turn.keep { p with answer := b' } .waiting := turn.trans ha
  subst turn
  exact ⟨result, effects, b', found, hg'⟩

/-- With its last octet the answer is delivered, as it is when it comes in one piece. -/
theorem gathers_all (hset : s.before.setting = { setting with policy })
    (all : (got ++ f.data).length = length.toNat) (hw : got ++ f.data = whole) :
    s.result = .outcome (p.deliver setting s.host.memory q whole).outcome ∧
      s.effects = (p.deliver setting s.host.memory q whole).effects p ∧
      s.after.table.find? id = (p.deliver setting s.host.memory q whole).entry := by
  obtain ⟨t, turn, result, -, effects, found⟩ := s.answered op hf.id_eq hp
  have ha := Pending.gathers_all (p := { p with answer := b }) (s := s.before.setting)
    hs hq hg hf room all
  rw [Pending.deliver_answer, hw, hset] at ha
  rw [hset] at turn
  replace turn : t = p.deliver setting s.host.memory q whole := turn.trans ha
  subst turn
  exact ⟨result, effects, found⟩

end Awaiting

theorem answered_unawaited (hd : s.before.table.Distinct) (op : s.operation = .backendAnswer f)
    (hid : f.id = id) (idle : ∀ p, s.before.table.find? id = some p → p.stage ≠ .forwarded) :
    s.result = .outcome (.ok .waiting) ∧ s.after = s.before ∧
      { s.effects with notices := [] } = (Effects.none : Effects C) := by
  cases hp : s.before.table.find? id with
  | none =>
    obtain ⟨result, after, effects⟩ := s.missed (by rw [op, Operation.target?, hid]) hp
    rw [op] at result effects
    exact ⟨result, after, by rw [effects, Effects.none]⟩
  | some p' =>
    have ignored := s.ignored hd (by rw [op, Operation.target?, hid]) hp
      (op ▸ idle p' hp)
    rwa [op] at ignored

theorem answered_already (hd : s.before.table.Distinct)
    (found : s.before.table.find? id = (p.deliver setting memory q whole).entry)
    (op : s.operation = .backendAnswer f) (hid : f.id = id) :
    s.result = .outcome (.ok .waiting) ∧ s.after = s.before ∧
      { s.effects with notices := [] } = (Effects.none : Effects C) := by
  refine answered_unawaited hd op hid fun p' hp => ?_
  simp [Pending.stage_of_deliver (found.symm.trans hp)]

end Step

/-- How far an answer that long has come, of which the octets `got` arrived. -/
inductive Gathering (e : Engine C) (id : QueryId) (p : Pending C) (setting : Setting) (q : Query)
    (whole : Bytes) (length : UInt16) (got : Bytes) : Prop
  | partly (b : WireBuffer) (short : got.length < length.toNat)
      (found : e.table.find? id = some { p with answer := b })
      (gathers : ({ p with answer := b } : Pending C).Gathers got length)
  | wholly {memory : Memory} (all : got.length = length.toNat)
      (found : e.table.find? id = (p.deliver setting memory q whole).entry)

namespace Run

variable {ids : IdSource} {setting : Setting} {before steps : List (Step C)} {e e' : Engine C}
  {s : Step C} {id : QueryId} {p : Pending C} {q : Query} {length : UInt16} {whole : Bytes}

section Answer

variable (hd : e.table.Distinct) (hp : e.table.find? id = some p) (hs : p.stage = .forwarded)
  (hq : p.parsed = some q) (empty : p.answer.position = 0) (hw : whole.length = length.toNat)
  (hl : 1 ≤ whole.length)

include hd hp hs hq empty hw hl

theorem gathering (run : Run e steps e')
    (pieces : ∀ u ∈ steps, u.operation.target? = some id →
      ∃ f, u.operation = .backendAnswer f ∧ f.Continues q id length)
    (room : ∀ u ∈ steps, u.operation.target? = some id →
      u.host.memory .answer length.toNat = true)
    (absent : ∀ u ∈ steps, ¬ u.Creates id) (stream : delivered steps id <+: whole) :
    Gathering e' id p e.setting q whole length (delivered steps id) := by
  induction run with
  | start => exact .partly p.answer (by rw [← hw]; exact hl) hp (.inl ⟨rfl, empty⟩)
  | @next steps s run ih =>
    rw [delivered_snoc] at stream ⊢
    have so_far := ih (fun u hu => pieces u (List.mem_append_left _ hu))
      (fun u hu => room u (List.mem_append_left _ hu))
      (fun u hu => absent u (List.mem_append_left _ hu)) ((List.prefix_append _ _).trans stream)
    by_cases ht : s.operation.target? = some id
    · obtain ⟨f, op, hf⟩ := pieces s (by simp) ht
      have room' := room s (by simp) ht
      have brings : s.brings id = f.data := by rw [Step.brings, if_pos ht, op, Operation.octets]
      obtain ⟨policy, hset⟩ := run.setting_eq
      rw [brings] at stream ⊢
      have hle := stream.length_le
      cases so_far with
      | partly b short found gathers =>
        rcases Nat.lt_or_eq_of_le hle with hlt | heq
        · obtain ⟨-, -, b', found', gathers'⟩ := Step.gathers_more found hs hq gathers op hf
            room' (hw ▸ hlt)
          exact .partly b' (hw ▸ hlt) found' gathers'
        · obtain ⟨-, -, found'⟩ := Step.gathers_all found hs hq gathers op hf room' hset
            (hw ▸ heq) (stream.eq_of_length heq)
          exact .wholly (hw ▸ heq) found'
      | wholly all found =>
        obtain ⟨-, after, -⟩ := Step.answered_already (run.distinct hd) found op hf.id_eq
        refine .wholly ?_ (after ▸ found)
        rw [List.length_append] at hle ⊢
        omega
    · rw [Step.brings, if_neg ht, List.append_nil]
      cases so_far with
      | partly b short found gathers =>
        exact .partly b short (s.find?_of_not_target ht found) gathers
      | @wholly memory all found =>
        have still : s.after.table.find? id = (p.deliver e.setting memory q whole).entry := by
          cases hgone : (p.deliver e.setting memory q whole).entry with
          | none => exact s.find?_of_absent (absent s (by simp)) (found.trans hgone)
          | some p' => exact s.find?_of_not_target ht (found.trans hgone)
        exact .wholly all still

end Answer

/-- However an answer is cut into fragments, and whatever happens to other queries in
between, its last octet has the effect of the whole answer in one fragment, if there is room
for it. -/
theorem reassembled (history : Run (.fresh ids setting) before e)
    (hp : e.table.find? id = some p) (hs : p.stage = .forwarded) (hq : p.parsed = some q)
    (empty : p.answer.position = 0) (hw : whole.length = length.toNat) (hl : 1 ≤ whole.length)
    (run : Run e steps s.before)
    (pieces : ∀ u ∈ steps ++ [s], u.operation.target? = some id →
      ∃ f, u.operation = .backendAnswer f ∧ f.Continues q id length)
    (room : ∀ u ∈ steps ++ [s], u.operation.target? = some id →
      u.host.memory .answer length.toNat = true)
    (absent : ∀ u ∈ steps, ¬ u.Creates id) (own : s.operation.target? = some id)
    (stream : delivered (steps ++ [s]) id <+: whole) :
    ((delivered (steps ++ [s]) id).length < whole.length →
      s.result = .outcome (.ok .waiting) ∧ s.effects = .none) ∧
    ((delivered steps id).length < whole.length → delivered (steps ++ [s]) id = whole →
      s.effects.encoded =
          [⟨whole, q, ⟨q.maxAnswerSize p.origin.transport, q.dnssecOk, setting.minimize⟩⟩] ∧
        ∀ f, f.Continues q id length → f.data = whole →
          let alone := e.backendAnswer s.host.memory f
          s.result = .outcome alone.1 ∧ s.effects = alone.2.2 ∧
            s.after.table.find? id = alone.2.1.table.find? id) ∧
    (delivered steps id = whole →
      s.result = .outcome (.ok .waiting) ∧ s.after = s.before ∧
        { s.effects with notices := [] } = (Effects.none : Effects C)) := by
  have hd := history.distinct Engine.distinct_fresh
  obtain ⟨f, op, hf⟩ := pieces s (by simp) own
  have brings : s.brings id = f.data := by rw [Step.brings, if_pos own, op, Operation.octets]
  rw [delivered_snoc, brings] at stream ⊢
  have so_far := run.gathering hd hp hs hq empty hw hl
    (fun u hu => pieces u (List.mem_append_left _ hu))
    (fun u hu => room u (List.mem_append_left _ hu)) absent
    ((List.prefix_append _ _).trans stream)
  have room' := room s (by simp) own
  obtain ⟨policy, hset⟩ := run.setting_eq
  obtain ⟨policy₀, hset₀⟩ := history.setting_eq
  cases so_far with
  | wholly all found =>
    have hall : (delivered steps id).length = whole.length := all.trans hw.symm
    refine ⟨fun hlt => ?_, fun hlt => absurd hlt (by omega), fun _ => ?_⟩
    · rw [List.length_append] at hlt
      omega
    · exact Step.answered_already (run.distinct hd) found op hf.id_eq
  | partly b short found gathers =>
    refine ⟨fun hlt => ?_, fun _ heq => ?_, fun heq => ?_⟩
    · obtain ⟨result, effects, -⟩ := Step.gathers_more found hs hq gathers op hf room' (hw ▸ hlt)
      exact ⟨result, effects⟩
    · obtain ⟨result, effects, found'⟩ := Step.gathers_all found hs hq gathers op hf room' hset
        (heq ▸ hw) heq
      refine ⟨?_, fun f₁ hf₁ hdata => ?_⟩
      · rw [effects]
        simp only [Turn.effects, Pending.encoded_deliver, Pending.encoderCall, hset₀]
        rfl
      · have single : p.answered e.setting s.host.memory f₁ =
            p.deliver e.setting s.host.memory q whole := by
          rw [← hdata]
          exact Pending.gathers_all hs hq (.inl ⟨rfl, empty⟩) hf₁ room'
            (by rw [List.nil_append, hdata, hw])
        have hc : e.backendAnswer s.host.memory f₁ =
            e.commit id p (p.deliver e.setting s.host.memory q whole) := by
          rw [← single, Engine.backendAnswer, hf₁.id_eq, hp]
        rw [hc]
        dsimp only
        rw [Engine.commit_outcome, Engine.commit_effects,
          Engine.find?_commit (Table.contains_iff.mpr ⟨p, hp⟩), if_pos rfl]
        exact ⟨result, effects, found'⟩
    · rw [heq] at short
      omega

/-- An answer without records, of which nothing, then a part, then the rest comes. -/
theorem reassembled_in_three : ∃ (e : Engine Nat) (s : Step Nat) (steps : List (Step Nat))
    (whole : Bytes), Run (.fresh (.ofQueue [] 7) .small) [Step.ask] e ∧
      e.table.find? ⟨7⟩ = some .asked ∧ whole.length = (12 : UInt16).toNat ∧
      Run e steps s.before ∧
      (∀ u ∈ steps ++ [s], u.operation.target? = some ⟨7⟩ →
        ∃ f, u.operation = .backendAnswer f ∧ f.Continues .small ⟨7⟩ 12) ∧
      (∀ u ∈ steps ++ [s], u.operation.target? = some ⟨7⟩ →
        u.host.memory .answer (12 : UInt16).toNat = true) ∧
      (∀ u ∈ steps, ¬ u.Creates ⟨7⟩) ∧ delivered (steps ++ [s]) ⟨7⟩ = whole ∧
      (delivered steps ⟨7⟩).length = 5 ∧
      s.effects.encoded = [⟨whole, .small, ⟨512, false, true⟩⟩] := by
  let whole : Bytes := [0, 0, 0x81, 0x80, 0, 0, 0, 0, 0, 0, 0, 0]
  let part (m : Bytes) : Fragment := ⟨⟨7⟩, 12, false, false, m⟩
  obtain ⟨s₁, before₁, host₁, op₁⟩ := Step.exists_answered Step.ask.after (part [])
  obtain ⟨s₂, before₂, host₂, op₂⟩ := Step.exists_answered s₁.after (part (whole.take 5))
  obtain ⟨s₃, before₃, host₃, op₃⟩ := Step.exists_answered s₂.after (part (whole.drop 5))
  have history : Run .small [Step.ask] Step.ask.after := .next (s := .ask) .start
  have begun : Run Step.ask.after [] s₁.before := before₁ ▸ .start
  have run₁ : Run Step.ask.after [s₁] s₂.before := before₂ ▸ begun.next
  have run : Run Step.ask.after [s₁, s₂] s₃.before := before₃ ▸ run₁.next
  have own {u : Step Nat} (hu : u ∈ [s₁, s₂] ++ [s₃]) :
      u.operation.target? = some ⟨7⟩ ∧
        ∃ f, u.operation = .backendAnswer f ∧ f.Continues .small ⟨7⟩ 12 := by
    obtain rfl | rfl | rfl : u = s₁ ∨ u = s₂ ∨ u = s₃ := by simpa using hu
    · exact ⟨by rw [op₁]; rfl, _, op₁, rfl, rfl, rfl⟩
    · exact ⟨by rw [op₂]; rfl, _, op₂, rfl, rfl, rfl⟩
    · exact ⟨by rw [op₃]; rfl, _, op₃, rfl, rfl, rfl⟩
  have pieces : ∀ u ∈ [s₁, s₂] ++ [s₃], u.operation.target? = some ⟨7⟩ →
      ∃ f, u.operation = .backendAnswer f ∧ f.Continues .small ⟨7⟩ 12 :=
    fun u hu _ => (own hu).2
  have room : ∀ u ∈ [s₁, s₂] ++ [s₃], u.operation.target? = some ⟨7⟩ →
      u.host.memory .answer (12 : UInt16).toNat = true := by
    intro u hu _
    obtain rfl | rfl | rfl : u = s₁ ∨ u = s₂ ∨ u = s₃ := by simpa using hu
    · exact Step.memory_of_plenty host₁ _ _
    · exact Step.memory_of_plenty host₂ _ _
    · exact Step.memory_of_plenty host₃ _ _
  have absent : ∀ u ∈ [s₁, s₂], ¬ u.Creates ⟨7⟩ := fun u hu =>
    Step.not_creates_of_target (own (List.mem_append_left _ hu)).1
  have brings (m : Bytes) {u : Step Nat} (op : u.operation = .backendAnswer (part m)) :
      u.brings ⟨7⟩ = m := by
    rw [Step.brings, op]
    rfl
  have all : delivered ([s₁, s₂] ++ [s₃]) ⟨7⟩ = whole := by
    simp only [delivered, List.cons_append, List.nil_append, List.flatMap_cons, List.flatMap_nil,
      brings _ op₁, brings _ op₂, brings _ op₃]
    rfl
  have first : (delivered [s₁, s₂] ⟨7⟩).length = 5 := by
    simp only [delivered, List.flatMap_cons, List.flatMap_nil, brings _ op₁, brings _ op₂]
    rfl
  have target : s₃.operation.target? = some ⟨7⟩ := by rw [op₃]; rfl
  have nonempty : 1 ≤ whole.length := by decide
  have assembled := history.reassembled Step.find?_ask rfl rfl rfl rfl nonempty run pieces room
    absent target (all ▸ List.prefix_rfl)
  exact ⟨_, s₃, [s₁, s₂], whole, history, Step.find?_ask, rfl, run, pieces, room, absent, all,
    first, (assembled.2.1 (by rw [first]; decide) all).1⟩

end Run

end ResolverGate
