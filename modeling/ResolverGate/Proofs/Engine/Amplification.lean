import ResolverGate.Proofs.Engine.Replying

/-! # No amplification

A reply is laid out from an answer of the engine, or it is short: no longer than the
client's message unless it tells who we are, and no longer than any client can take.
-/

namespace ResolverGate

variable {C : Type}

/-- The reply costs hardly more than the message that brought it about. -/
structure Completion.Bounds (c : Completion C) (reply : Bytes) : Prop where
  absolute : reply.length ≤ 512
  relative : reply.length ≤ c.message.length ∨
    c.step.before.setting.policy.judge c.message = .identify reply ∧
      reply.length ≤ c.message.length + 29

namespace Run

variable {ids : IdSource} {setting : Setting} {steps : List (Step C)} {e : Engine C} {s : Step C}
  {j : Nat} {o : Outcome}

/-- Every reply is for the last message that was completed under the id of its query,
and is the encoder's or bounded by that message. -/
theorem replies_bounded (run : Run (.fresh ids setting) steps e) (hs : steps[j]? = some s)
    (h : s.result = .outcome (.ok o)) (ho : o.isReply = true) :
    ∃ id c peer origin f reply, s.about? = some id ∧ latest? (steps.take (j + 1)) id = some c ∧
      c.From peer origin ∧ s.Replies id peer reply (origin.map f) ∧
      ((∃ call ∈ s.effects.encoded, setting.encoder call = .ok reply) ∨ c.Bounds reply) := by
  have toHere := run.before hs
  rw [List.take_add_one, hs, Option.toList_some]
  cases run.course hs with
  | @completes c p t completion judges =>
    obtain ⟨rfl, -⟩ := completion?_cases completion
    have outcome := Result.outcome.inj (judges.result.symm.trans h)
    obtain ⟨reply, hr⟩ := judges.replied outcome ho
    obtain ⟨absolute, relative⟩ := Policy.length_of_replied hr
    refine ⟨c.id, c, p.peer, p.origin, id, reply, about?_of_completion completion,
      latest?_snoc completion, judges.sender, ?_, .inr ⟨absolute, relative⟩⟩
    rw [Origin.map_id]
    exact judges.replies hr outcome ho
  | goesOn completion _ _ _ replies =>
    obtain ⟨fragment, p, op, present, stage⟩ := replies o h ho
    cases (toHere.accounted fragment.id p present).2 with
    | writing stage' => simp [stage] at stage'
    | reading _ reads => exact absurd stage reads.stage_ne_forwarded
    | @awaiting c q origin f got size _ parsed last asks sender moved received =>
      obtain ⟨t, turn, result, -, effects, found⟩ := s.answered op rfl present
      subst turn
      have outcome := Result.outcome.inj (result.symm.trans h)
      obtain ⟨reply, made, entry, same⟩ := Pending.answered_replies stage parsed received outcome ho
      refine ⟨fragment.id, c, p.peer, origin, f, reply, ?_, ?_, sender, ?_, ?_⟩
      · simp [Step.about?, op, Operation.target?]
      · rwa [latest?_snoc_of_ne (by simp [completion])]
      · rw [← moved]
        refine Step.replies_of_sendAnswer (result.trans (by rw [same])) ?_ (same ▸ outcome) ho
        rw [found, entry]
      · rcases made with rfl | ⟨call, mem, encoded⟩
        · obtain ⟨relative, absolute⟩ := Policy.length_errorReply_le asks.forward .servFail
          exact .inr ⟨absolute, .inl relative⟩
        · refine .inl ⟨call, ?_, toHere.encoder_eq ▸ encoded⟩
          rw [effects]
          exact mem

/-- SERVFAIL for a query whose answer there is no room for is as long as the client's message. -/
theorem replies_bounded_unbuffered : ∃ (steps : List (Step Nat)) (e : Engine Nat) (s : Step Nat)
    (o : Outcome), Run (.fresh (.ofQueue [] 7) .small) steps e ∧ steps[1]? = some s ∧
      s.result = .outcome (.ok o) ∧ o.isReply = true ∧
      s.effects.notices = [.notBuffered ⟨7⟩ (.outOfMemory 65535)] ∧
      ∃ id c peer origin f reply, s.about? = some id ∧ latest? (steps.take 2) id = some c ∧
        c.From peer origin ∧ s.Replies id peer reply (origin.map f) ∧ c.Bounds reply := by
  let fragment : Fragment := ⟨⟨7⟩, 65535, false, false, [0]⟩
  let full : Host := ⟨.allowing none, fun room _ => room ≠ .answer⟩
  let answer : Step Nat := ⟨Step.ask.after, full, .backendAnswer fragment, _, _, _,
    Engine.perform_found rfl Step.find?_ask⟩
  have asked : Run .small [Step.ask] answer.before := .next (s := .ask) .start
  have run : Run .small [Step.ask, answer] answer.after := asked.next
  obtain ⟨id, c, peer, origin, f, reply, about, last, sender, replies, made⟩ :=
    run.replies_bounded (j := 1) rfl rfl rfl
  refine ⟨_, _, answer, _, run, rfl, rfl, rfl, rfl, id, c, peer, origin, f, reply, about, last,
    sender, replies, made.resolve_left ?_⟩
  rintro ⟨call, mem, -⟩
  have silent : answer.effects.encoded = [] := rfl
  simp [silent] at mem

end Run

end ResolverGate
