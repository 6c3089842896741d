import ResolverGate.Proofs.Admission
import ResolverGate.Proofs.Blocklist

/-! # What blocking does to admission

A blocklist is looked at once a message is known to be a query for the engine, before its
type and class are. All that it can do is to refuse.
-/

namespace ResolverGate

/-! ## Refusals -/

namespace Reply

theorem flags_and (h : Header) (r : Rcode) (mask : UInt16) :
    flags h r &&& mask = (Header.qr ||| Header.ra) &&& mask |||
      h.flags &&& ((Header.rd ||| Header.cd) &&& mask) ||| r.code &&& mask := by
  rw [← UInt16.toBitVec_inj]
  simp only [flags, UInt16.toBitVec_or, UInt16.toBitVec_and, BitVec.and_or_distrib_right,
    BitVec.and_assoc]

theorem flags_and_rcodeMask (h : Header) (r : Rcode) :
    flags h r &&& Header.rcodeMask = r.code := by
  have fixed : (Header.qr ||| Header.ra) &&& Header.rcodeMask = 0 := rfl
  have mirrored : (Header.rd ||| Header.cd) &&& Header.rcodeMask = 0 := rfl
  have code : r.code &&& Header.rcodeMask = r.code := by cases r <;> rfl
  rw [flags_and, fixed, mirrored, code]
  simp

theorem flags_and_qr (h : Header) (r : Rcode) : flags h r &&& Header.qr = Header.qr := by
  have fixed : (Header.qr ||| Header.ra) &&& Header.qr = Header.qr := rfl
  have mirrored : (Header.rd ||| Header.cd) &&& Header.qr = 0 := rfl
  have code : r.code &&& Header.qr = 0 := by cases r <;> rfl
  rw [flags_and, fixed, mirrored, code]
  simp

end Reply

/-- A response with a code to a query, which repeats the query's id and question. -/
def Query.RepliedTo (q : Query) (r : Rcode) (reply : Bytes) : Prop :=
  ∃ (header : Header) (opt : Bytes), reply = header.encode ++ q.question.wire ++ opt ∧
    header.id = q.header.id ∧ header.isResponse = true ∧ header.rcode = r.code ∧ header.qdcount = 1

theorem Query.repliedTo_errorReply (q : Query) (r : Rcode) : q.RepliedTo r (q.errorReply r) := by
  refine ⟨_, _, rfl, rfl, ?_, Reply.flags_and_rcodeMask q.header r, rfl⟩
  rw [Header.isResponse, Reply.flags_and_qr]
  rfl

namespace Policy

variable {policy : Policy} {m : Bytes} {query : Query}

def Closed (a : Admission) : Prop := (∀ q, a ≠ .forward q) ∧ ∀ reply, a ≠ .identify reply

theorem closed_drop (reason : DropReason) : Closed (.drop reason) := ⟨nofun, nofun⟩

theorem closed_refuse (r : Refusal) (reply : Bytes) : Closed (.refuse r reply) := ⟨nofun, nofun⟩

theorem judge_eq_judgeQuery (spelt : query.SpeltBy m) (forwardable : query.header.Forwardable) :
    policy.judge m = policy.judgeQuery query := by
  obtain ⟨body, rest, hr, hq, he⟩ := speltBy_iff.mp spelt
  obtain ⟨request, asking, unrefused⟩ := Header.forwardable_iff.mp forwardable
  rw [judge, hr]
  simp only [request, Bool.false_eq_true, if_false]
  rw [if_neg asking, hq]
  simp only [unrefused, he]

/-- The checks in front of the blocklist's are those of every policy: they settle a message
without looking at it, or the message is a query. -/
theorem judge_settled_or_query (m : Bytes) :
    (∃ a, Closed a ∧ ∀ policy : Policy, policy.judge m = a) ∨
      ∃ query : Query, query.SpeltBy m ∧ query.header.Forwardable := by
  have dropped (reason : DropReason) (same : ∀ policy : Policy, policy.judge m = .drop reason) :
      ∃ a, Closed a ∧ ∀ policy : Policy, policy.judge m = a := ⟨_, closed_drop reason, same⟩
  have refused (h : Header) (r : Refusal) (q : Option Question)
      (same : ∀ policy : Policy, policy.judge m = .refuse r (Reply.error h q none r.rcode)) :
      ∃ a, Closed a ∧ ∀ policy : Policy, policy.judge m = a := ⟨_, closed_refuse r _, same⟩
  -- The checks in their order: none of those before the last case looks at the policy.
  cases hr : Header.read? m with
  | none => exact .inl (dropped .shortHeader fun policy => by rw [judge, hr])
  | some read =>
  obtain ⟨h, body⟩ := read
  by_cases request : h.isResponse = true
  · exact .inl (dropped .response fun policy => by rw [judge, hr]; exact if_pos request)
  by_cases asking : h.qdcount = 0
  · refine .inl (refused h ((headerRefusal? h).getD .noQuestion) none fun policy => ?_)
    rw [judge, hr]
    simp only [request, asking, if_true, if_false, Bool.false_eq_true]
  cases hq : Question.read body with
  | error e =>
    cases e with
    | truncated =>
      refine .inl (dropped .truncatedQuestion fun policy => ?_)
      rw [judge, hr]
      simp only [request, asking, hq, if_false, Bool.false_eq_true]
    | invalidName =>
      refine .inl (refused h ((headerRefusal? h).getD .noQuestion) none fun policy => ?_)
      rw [judge, hr]
      simp only [request, asking, hq, if_false, Bool.false_eq_true]
  | ok read =>
  obtain ⟨question, rest⟩ := read
  cases unrefused : headerRefusal? h with
  | some r =>
    refine .inl (refused h r question fun policy => ?_)
    rw [judge, hr]
    simp only [request, asking, hq, unrefused, if_false, Bool.false_eq_true]
  | none =>
  cases he : Edns.read h rest with
  | error _ =>
    refine .inl (refused h .edns question fun policy => ?_)
    rw [judge, hr]
    simp only [request, asking, hq, unrefused, he, if_false, Bool.false_eq_true]
  | ok edns =>
    refine .inr ⟨⟨h, question, edns⟩, speltBy_iff.mpr ⟨body, rest, hr, hq, he⟩, ?_⟩
    exact Header.forwardable_iff.mpr ⟨by simpa using request, asking, unrefused⟩

theorem exists_ofMessage (spelt : query.SpeltBy m) :
    ∃ rest, Question.ofMessage m = .ok (query.question, rest) := by
  obtain ⟨body, rest, hr, hq, -⟩ := speltBy_iff.mp spelt
  obtain rfl := Header.append_of_read? hr
  exact ⟨rest, by rwa [Question.ofMessage, List.drop_left' query.header.length_encode]⟩

/-- A message whose first question has one of these names. -/
def Blocked (names : List String) (m : Bytes) : Prop :=
  ∃ question rest, Question.ofMessage m = .ok (question, rest) ∧
    ∃ domain ∈ names, Blocklist.Alike domain question.name

theorem blocked_iff {names : List String} {logBlocked : Bool} (spelt : query.SpeltBy m) :
    Blocked names m ↔
      (⟨.ofNames names, logBlocked⟩ : Policy).blocklist.contains query.question.name = true := by
  obtain ⟨rest, hq⟩ := exists_ofMessage spelt
  rw [Blocklist.contains_ofNames]
  constructor
  · rintro ⟨question, rest', hq', found⟩
    obtain ⟨rfl, rfl⟩ : question = query.question ∧ rest' = rest := by
      simpa using hq'.symm.trans hq
    exact found
  · exact fun found => ⟨_, rest, hq, found⟩

/-- A message that asks for a blocked name is never forwarded, and once it is known to be a
query it is refused, whatever its type and class. Any other message fares as it would
without a blocklist. -/
theorem judge_blocking (names : List String) (logBlocked : Bool) (m : Bytes) :
    let policy : Policy := ⟨.ofNames names, logBlocked⟩
    (Blocked names m → Closed (policy.judge m) ∧
      ∀ query : Query, query.SpeltBy m → query.header.Forwardable →
        policy.judge m = .refuse .blocked (query.errorReply .refused) ∧
        query.RepliedTo .refused (query.errorReply .refused)) ∧
    (¬ Blocked names m → policy.judge m = judge ⟨.empty, logBlocked⟩ m) := by
  intro policy
  constructor
  · intro blocked
    have refused (query : Query) (spelt : query.SpeltBy m)
        (forwardable : query.header.Forwardable) :
        policy.judge m = .refuse .blocked (query.errorReply .refused) := by
      rw [judge_eq_judgeQuery spelt forwardable, judgeQuery,
        if_pos ((blocked_iff spelt).mp blocked)]
      rfl
    refine ⟨?_, fun query spelt forwardable =>
      ⟨refused query spelt forwardable, query.repliedTo_errorReply .refused⟩⟩
    obtain ⟨a, closed, settled⟩ | ⟨query, spelt, forwardable⟩ := judge_settled_or_query m
    · exact settled policy ▸ closed
    · exact refused query spelt forwardable ▸ closed_refuse _ _
  · intro unblocked
    obtain ⟨a, -, settled⟩ | ⟨query, spelt, forwardable⟩ := judge_settled_or_query m
    · rw [settled, settled]
    · have missed : policy.blocklist.contains query.question.name = false :=
        Bool.eq_false_iff.mpr fun found => unblocked ((blocked_iff spelt).mpr found)
      rw [judge_eq_judgeQuery spelt forwardable, judge_eq_judgeQuery spelt forwardable,
        judgeQuery, judgeQuery, missed, Blocklist.contains_empty]

/-- A zone transfer of class CH, for a blocked name in another case. -/
theorem judge_blocking_transfer :
    let question : Question := ⟨"Ads.", ⟨252⟩, ⟨3⟩, [3, 65, 100, 115, 0, 0, 252, 0, 3]⟩
    let m : Bytes := [0, 7, 1, 0, 0, 1, 0, 0, 0, 0, 0, 0] ++ question.wire
    Blocked ["other.", "aDS"] m ∧
      judge ⟨.ofNames ["other.", "aDS"], false⟩ m =
        .refuse .blocked ([0, 7, 0x81, 0x85, 0, 1, 0, 0, 0, 0, 0, 0] ++ question.wire) := by
  intro question m
  let query : Query := ⟨⟨7, 0x0100, 1, 0, 0, 0⟩, question, none⟩
  have valid : Labels.Valid [[65, 100, 115]] := by simp [Labels.Valid]
  have follow : Edns.Follow query.header [] [] [] [] [] :=
    ⟨rfl, by simp, rfl, by simp, rfl, by simp, rfl⟩
  have spelt : query.SpeltBy m := .intro ⟨252⟩ ⟨3⟩ valid (by decide) follow .nothing
  have forwardable : query.header.Forwardable := Header.forwardable_iff.mpr (by decide)
  have alike : Blocklist.Alike "aDS" "Ads." := by
    unfold Blocklist.Alike
    decide +kernel
  obtain ⟨rest, asked⟩ := exists_ofMessage spelt
  have blocked : Blocked ["other.", "aDS"] m := ⟨question, rest, asked, "aDS", by decide, alike⟩
  have reply : query.errorReply .refused =
      [0, 7, 0x81, 0x85, 0, 1, 0, 0, 0, 0, 0, 0] ++ question.wire := by decide
  have refused := (((judge_blocking _ false m).1 blocked).2 query spelt forwardable).1
  exact ⟨blocked, refused.trans (congrArg (Admission.refuse .blocked) reply)⟩

end Policy

end ResolverGate
