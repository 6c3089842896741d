import ResolverGate.Proofs.Replies

/-! # What admission forwards

A message is forwarded exactly if it is spelt as a query is, and its header, type,
class and name are ones to forward. What is kept of it is what it spells.
-/

namespace ResolverGate

/-- The header of a query for the engine: QR and TC are clear, RD is set, and the
opcode is 0. -/
structure Header.Forwardable (h : Header) : Prop where
  query : h.bit 15 = false
  untruncated : h.bit 9 = false
  recursive : h.bit 8 = true
  standard : h.flags.toNat / 2048 % 16 = 0
  asking : 1 ≤ h.qdcount.toNat
  counts : ¬ (h.qdcount ≠ 1 ∧ h.ancount ≠ 0 ∧ h.nscount ≠ 0 ∧ 1 < h.arcount.toNat)

/-- What is asked is for the engine, and not blocked. -/
structure Question.Forwardable (policy : Policy) (q : Question) : Prop where
  unblocked : policy.blocklist.contains q.name = false
  transfer : q.qtype.isZoneTransfer = false
  real : q.qtype.isMeta = false
  class_ne : q.qclass ≠ .chaos

/-- The message that a query is kept from: its header, its question, the other
questions and the records that the header counts, and whatever stands behind. -/
inductive Query.SpeltBy : Query → Bytes → Prop
  | intro {h : Header} {ls : Labels} {edns : Option Edns} {questions : List Bytes}
      {records additional : List RecordSpan} {m rest : Bytes} (qtype : RecordType)
      (qclass : RecordClass) (valid : ls.Valid) (short : ls.wireLength + 1 ≤ 255)
      (follow : Edns.Follow h questions records additional m rest)
      (announced : Edns.Announced (Edns.optRecords additional) edns) :
      SpeltBy ⟨h, .ofLabels ls qtype qclass, edns⟩
        (h.encode ++ (ls.encode ++ 0 :: (Bytes.of16 qtype.code ++ Bytes.of16 qclass.code)) ++ m)

namespace Header

theorem forwardable_iff {h : Header} :
    h.Forwardable ↔ h.isResponse = false ∧ h.qdcount ≠ 0 ∧ Policy.headerRefusal? h = none := by
  have asking : 1 ≤ h.qdcount.toNat ↔ h.qdcount ≠ 0 := by
    rw [Nat.one_le_iff_ne_zero, ne_eq, ne_eq, ← UInt16.toNat_inj]
    rfl
  have standard : h.opcode = 0 ↔ h.flags.toNat / 2048 % 16 = 0 := by
    rw [← UInt16.toNat_inj, h.toNat_opcode]
    rfl
  constructor
  · rintro ⟨query, untruncated, recursive, opcode, asks, counts⟩
    refine ⟨h.isResponse_eq_bit.trans query, asking.mp asks, ?_⟩
    unfold Policy.headerRefusal?
    rw [h.truncated_eq_bit, h.recursionDesired_eq_bit, if_neg (by simp [untruncated]),
      if_neg (by simp [recursive]), if_neg (not_not.mpr (standard.mpr opcode))]
    exact if_neg counts
  · rintro ⟨query, asks, unrefused⟩
    unfold Policy.headerRefusal? at unrefused
    rw [h.truncated_eq_bit, h.recursionDesired_eq_bit] at unrefused
    split at unrefused
    · simp at unrefused
    next untruncated =>
    split at unrefused
    · simp at unrefused
    next recursive =>
    split at unrefused
    · simp at unrefused
    next opcode =>
    split at unrefused
    · simp at unrefused
    next counts =>
    exact ⟨h.isResponse_eq_bit.symm.trans query, by simpa using untruncated,
      by simpa using recursive, standard.mp (not_not.mp opcode), asking.mpr asks, counts⟩

end Header

namespace Policy

variable {policy : Policy} {m : Bytes} {q : Query}

theorem judgeQuery_eq_forward_iff {q' : Query} :
    policy.judgeQuery q' = .forward q ↔ q' = q ∧ q.question.Forwardable policy := by
  constructor
  · intro h
    unfold judgeQuery at h
    split at h
    · simp at h
    next unblocked =>
    split at h
    · simp at h
    next transfer =>
    split at h
    · simp at h
    next real =>
    split at h
    · split at h <;> simp at h
    next class_ne =>
    obtain rfl := Admission.forward.inj h
    exact ⟨rfl, by simpa using unblocked, by simpa using transfer, by simpa using real, class_ne⟩
  · rintro ⟨rfl, unblocked, transfer, real, class_ne⟩
    unfold judgeQuery
    rw [if_neg (by simp [unblocked]), if_neg (by simp [transfer]), if_neg (by simp [real]),
      if_neg class_ne]

/-- A message is forwarded if each reader in turn accepts it and no check applies. -/
theorem judge_eq_forward_iff_read :
    policy.judge m = .forward q ↔
      (∃ body rest, Header.read? m = some (q.header, body) ∧
        Question.read body = .ok (q.question, rest) ∧ Edns.read q.header rest = .ok q.edns) ∧
      q.header.Forwardable ∧ q.question.Forwardable policy := by
  rw [Header.forwardable_iff]
  constructor
  · intro h
    unfold judge at h
    split at h
    · simp at h
    next header body hr =>
    split at h
    · simp at h
    next query =>
    simp only at h
    generalize hq : (if header.qdcount = 0 then .error .invalidName else Question.read body)
      = question at h
    match question with
    | .error .truncated => simp at h
    | .error .invalidName => simp at h
    | .ok (question, rest) =>
      split at hq
      · simp at hq
      next asking =>
      simp only at h
      split at h
      · simp at h
      next unrefused =>
      split at h
      · simp at h
      next edns he =>
      obtain ⟨rfl, forwardable⟩ := judgeQuery_eq_forward_iff.mp h
      exact ⟨⟨body, rest, hr, hq, he⟩, ⟨by simpa using query, asking, unrefused⟩, forwardable⟩
  · rintro ⟨⟨body, rest, hr, hq, he⟩, ⟨query, asking, unrefused⟩, forwardable⟩
    rw [judge, hr]
    simp only [query, Bool.false_eq_true, if_false]
    rw [if_neg asking, hq]
    simp only [unrefused, he]
    exact judgeQuery_eq_forward_iff.mpr ⟨rfl, forwardable⟩

theorem speltBy_iff : q.SpeltBy m ↔ ∃ body rest, Header.read? m = some (q.header, body) ∧
    Question.read body = .ok (q.question, rest) ∧ Edns.read q.header rest = .ok q.edns := by
  constructor
  · rintro @⟨h, ls, edns, questions, records, additional, m, rest, t, c, valid, short, follow,
      announced⟩
    refine ⟨_, m, ?_, Question.read_eq_ok_iff.mpr ⟨ls, t, c, valid, short, rfl, rfl⟩,
      Edns.read_eq_ok_iff.mpr ⟨_, _, _, _, follow, announced⟩⟩
    rw [List.append_assoc]
    exact Header.read?_encode h _
  · obtain ⟨h, question, edns⟩ := q
    rintro ⟨body, rest, hr, hq, he⟩
    obtain rfl := Header.append_of_read? hr
    obtain ⟨ls, t, c, valid, short, rfl, rfl⟩ := Question.read_eq_ok_iff.mp hq
    obtain ⟨_, _, _, _, follow, announced⟩ := Edns.read_eq_ok_iff.mp he
    have spelt := Query.SpeltBy.intro t c valid short follow announced
    rwa [List.append_assoc] at spelt

/-- Exactly the valid queries are forwarded, as what they spell. -/
theorem judge_eq_forward_iff :
    policy.judge m = .forward q ↔
      q.SpeltBy m ∧ q.header.Forwardable ∧ q.question.Forwardable policy := by
  rw [judge_eq_forward_iff_read, speltBy_iff]

end Policy

end ResolverGate
