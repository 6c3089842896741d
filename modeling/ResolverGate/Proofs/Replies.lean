import ResolverGate.Pending
import ResolverGate.Proofs.Message.Grammar
import ResolverGate.Proofs.Outcomes

/-! # Replies

Every admitted message begins with a header, and every reply to it repeats the
header's id. The replies of our own are short: the question is the only part whose
length the client chooses, and a question is bounded.
-/

namespace ResolverGate

namespace Bytes

theorem exists_of16_append {m : Bytes} (h : 2 ≤ m.length) : ∃ w rest, m = of16 w ++ rest := by
  match m with
  | a :: b :: rest => exact ⟨_, rest, congrArg (· ++ rest) (of16_toNumber a b).symm⟩

end Bytes

namespace Header

theorem append_of_read? {m body : Bytes} {h : Header} (hr : read? m = some (h, body)) :
    m = h.encode ++ body := by
  simp only [read?, Option.bind_eq_bind, Option.bind_eq_some_iff, Prod.exists] at hr
  obtain ⟨w₁, m₁, h₁, w₂, m₂, h₂, w₃, m₃, h₃, w₄, m₄, h₄, w₅, m₅, h₅, w₆, m₆, h₆, hr⟩ := hr
  obtain ⟨rfl, rfl⟩ : _ = h ∧ m₆ = body := by simpa [pure] using hr
  rw [Bytes.read16?_eq_some_iff.mp h₁, Bytes.read16?_eq_some_iff.mp h₂,
    Bytes.read16?_eq_some_iff.mp h₃, Bytes.read16?_eq_some_iff.mp h₄,
    Bytes.read16?_eq_some_iff.mp h₅, Bytes.read16?_eq_some_iff.mp h₆]
  simp [encode]

theorem id_prefix_encode {h : Header} {w : UInt16} (hw : h.id = w) :
    Bytes.of16 w <+: h.encode := by
  simp only [encode, hw, List.append_assoc]
  exact List.prefix_append _ _

end Header

namespace Question

def maxWireLength : Nat := 259

/-- What is read stands at the front, octet for octet. -/
theorem append_of_read {m rest : Bytes} {q : Question} (h : read m = .ok (q, rest)) :
    m = q.wire ++ rest := by
  obtain ⟨ls, t, c, -, -, -, octets⟩ := read_eq_ok_iff.mp h
  exact octets

theorem length_wire_of_read {m rest : Bytes} {q : Question} (h : read m = .ok (q, rest)) :
    q.wire.length ≤ maxWireLength := by
  obtain ⟨ls, t, c, -, fits, rfl, -⟩ := read_eq_ok_iff.mp h
  simp only [ofLabels, List.length_append, List.length_cons, Labels.length_encode,
    Bytes.length_of16, Labels.maxWireLength, maxWireLength] at fits ⊢
  omega

end Question

theorem Edns.length_of_read {h : Header} {m : Bytes} {edns : Edns}
    (hr : read h m = .ok (some edns)) : 11 ≤ m.length := by
  obtain ⟨questions, records, additional, rest, follow, announced⟩ := read_eq_ok_iff.mp hr
  generalize found : optRecords additional = opts at announced
  cases announced with
  | @once r =>
    have mem : r ∈ additional := by
      have : r ∈ optRecords additional := found ▸ List.mem_singleton_self r
      exact (List.mem_filter.mp this).1
    have := (follow.additional_wellFormed r mem).length_encode
    obtain ⟨before, after, rfl⟩ := List.append_of_mem mem
    rw [follow.octets]
    simp only [List.flatMap_append, List.flatMap_cons, List.length_append]
    omega

namespace Reply

theorem id_prefix_error (h : Header) (q : Option Question) (e : Option Edns) (r : Rcode) :
    Bytes.of16 h.id <+: error h q e r := by
  simp only [error, List.append_assoc]
  refine List.IsPrefix.trans ?_ (List.prefix_append _ _)
  exact Header.id_prefix_encode rfl

theorem id_prefix_identity (h : Header) (q : Question) (text : String) :
    Bytes.of16 h.id <+: identity h q text := by
  simp only [identity, List.append_assoc]
  refine List.IsPrefix.trans ?_ (List.prefix_append _ _)
  exact Header.id_prefix_encode rfl

theorem length_optRecord (dnssecOk : Bool) : (optRecord dnssecOk).length = 11 := by
  simp [optRecord]

theorem length_error (h : Header) (q : Option Question) (e : Option Edns) (r : Rcode) :
    (error h q e r).length =
      Header.size + ((q.map (·.wire)).getD []).length + if e.isSome then 11 else 0 := by
  cases e <;> simp [error, Header.length_encode, length_optRecord, Nat.add_assoc]

theorem length_identity (h : Header) (q : Question) (text : String) :
    (identity h q text).length =
      Header.size + q.wire.length + 13 + min 255 (Bytes.ofText text).length := by
  simp only [identity, List.length_append, List.length_cons, List.length_nil, List.length_take,
    Header.length_encode, Bytes.length_of16, Bytes.length_of32]
  omega

def maxLength : Nat := 512

end Reply

namespace Answer

variable {R W : Type} {codec : Codec R W} {query : Query} {flags : UInt16} {opt m : Bytes}

theorem id_prefix_of_encode {sections : Sections R}
    (h : encode codec query flags sections opt = .ok m) : Bytes.of16 query.header.id <+: m := by
  obtain ⟨laid, -, h⟩ := exists_of_bind h
  obtain ⟨ancount, -, h⟩ := exists_of_bind h
  obtain ⟨nscount, -, h⟩ := exists_of_bind h
  obtain ⟨arcount, -, h⟩ := exists_of_bind h
  obtain rfl := Except.ok.inj h
  exact (Header.id_prefix_encode (by rfl)).trans (List.prefix_append _ _)

theorem id_prefix_of_encodeFitting {maxSize : Nat} {layouts : List (Sections R)}
    (h : encodeFitting codec query flags opt maxSize layouts = .ok m) :
    Bytes.of16 query.header.id <+: m := by
  induction layouts with
  | nil => exact id_prefix_of_encode h
  | cons sections layouts ih =>
    obtain ⟨m', encoded, h⟩ := exists_of_bind h
    split at h
    · obtain rfl := Except.ok.inj h
      exact id_prefix_of_encode encoded
    · exact ih h

end Answer

theorem EncoderCall.id_prefix_of_layOut {R W : Type} {codec : Answer.Codec R W} {c : EncoderCall}
    {reply : Bytes} (h : c.layOut codec = .ok reply) :
    Bytes.of16 c.query.header.id <+: reply := by
  have made := mapError_eq_ok_iff.mp h
  unfold Answer.reply at made
  split at made
  · cases made
  split at made
  · cases made
  · exact Answer.id_prefix_of_encodeFitting made

namespace Policy

/-- What an admission is made from, for the message `m`. -/
inductive Judged (m : Bytes) : Admission → Prop
  | drop (reason : DropReason) : Judged m (.drop reason)
  | refuse {h : Header} {body : Bytes} {question : Option Question} {edns : Option Edns}
      (r : Refusal) (header : Header.read? m = some (h, body))
      (echo : ∀ q ∈ question, ∃ rest, Question.read body = .ok (q, rest))
      (options : ∀ e ∈ edns, ∃ q ∈ question, ∃ rest, Question.read body = .ok (q, rest) ∧
        Edns.read h rest = .ok (some e)) :
      Judged m (.refuse r (Reply.error h question edns r.rcode))
  | identify {h : Header} {body rest : Bytes} {q : Question}
      (header : Header.read? m = some (h, body))
      (question : Question.read body = .ok (q, rest)) :
      Judged m (.identify (Reply.identity h q identity))
  | forward {q : Query} {body rest : Bytes} (header : Header.read? m = some (q.header, body))
      (question : Question.read body = .ok (q.question, rest))
      (edns : Edns.read q.header rest = .ok q.edns) : Judged m (.forward q)

theorem judged_judgeQuery (policy : Policy) {m body rest : Bytes} {q : Query}
    (header : Header.read? m = some (q.header, body))
    (question : Question.read body = .ok (q.question, rest))
    (edns : Edns.read q.header rest = .ok q.edns) :
    Judged m (policy.judgeQuery q) := by
  have refuse (r : Refusal) : Judged m (.refuse r (q.errorReply r.rcode)) := by
    refine .refuse r header (fun _ h => ⟨rest, Option.some.inj h ▸ question⟩) fun e he => ?_
    exact ⟨q.question, rfl, rest, question, edns.trans (congrArg Except.ok he)⟩
  unfold judgeQuery
  split
  · exact refuse .blocked
  split
  · exact refuse .zoneTransfer
  split
  · exact refuse .metaType
  split
  · split
    · exact .identify header question
    · exact refuse .chaos
  · exact .forward header question edns

theorem judged (policy : Policy) (m : Bytes) : Judged m (policy.judge m) := by
  unfold judge
  split
  · exact .drop _
  next h body header =>
  split
  · exact .drop _
  simp only
  generalize hq : (if h.qdcount = 0 then .error .invalidName else Question.read body) = question
  match question with
  | .error .truncated => exact .drop _
  | .error .invalidName => exact .refuse _ header (by simp) (by simp)
  | .ok (q, rest) =>
    have hr : Question.read body = .ok (q, rest) := by
      split at hq
      · simp at hq
      · exact hq
    have echo : ∀ q' ∈ some q, ∃ rest, Question.read body = .ok (q', rest) :=
      fun _ h => ⟨rest, Option.some.inj h ▸ hr⟩
    simp only
    split
    · exact .refuse _ header echo (by simp)
    split
    · exact .refuse _ header echo (by simp)
    · next edns he => exact judged_judgeQuery policy header hr he

section Length

variable {m body rest : Bytes} {h : Header} {q : Question} {r : Rcode}

theorem length_of_read (header : Header.read? m = some (h, body)) :
    m.length = Header.size + body.length := by
  rw [Header.append_of_read? header, List.length_append, Header.length_encode]

/-- An error reply has no more to it than the header, the question and the OPT record
of the message. -/
theorem length_error_le {question : Option Question} {edns : Option Edns}
    (header : Header.read? m = some (h, body))
    (echo : ∀ q ∈ question, ∃ rest, Question.read body = .ok (q, rest))
    (options : ∀ e ∈ edns, ∃ q ∈ question, ∃ rest, Question.read body = .ok (q, rest) ∧
      Edns.read h rest = .ok (some e)) :
    (Reply.error h question edns r).length ≤ m.length ∧
      (Reply.error h question edns r).length ≤ Reply.maxLength := by
  have bounded : ((question.map (·.wire)).getD []).length ≤ Question.maxWireLength := by
    cases question with
    | none => exact Nat.zero_le _
    | some q =>
      obtain ⟨rest, hr⟩ := echo q rfl
      exact Question.length_wire_of_read hr
  have whole : ((question.map (·.wire)).getD []).length + (if edns.isSome then 11 else 0) ≤
      body.length := by
    cases edns with
    | some e =>
      obtain ⟨q, rfl, rest, hr, he⟩ := options e rfl
      have behind := Edns.length_of_read he
      rw [Question.append_of_read hr, List.length_append]
      exact Nat.add_le_add_left behind _
    | none =>
      cases question with
      | none => exact Nat.zero_le _
      | some q =>
        obtain ⟨rest, hr⟩ := echo q rfl
        rw [Question.append_of_read hr, List.length_append]
        exact Nat.le_add_right _ _
  have opt : (if edns.isSome then 11 else 0) ≤ 11 := by split <;> decide
  rw [Question.maxWireLength] at bounded
  rw [Reply.length_error, length_of_read header, Header.size, Reply.maxLength]
  omega

theorem length_identity_le (header : Header.read? m = some (h, body))
    (question : Question.read body = .ok (q, rest)) :
    (Reply.identity h q identity).length ≤ m.length + 29 ∧
      (Reply.identity h q identity).length ≤ Reply.maxLength := by
  have bounded := Question.length_wire_of_read question
  have text : (Bytes.ofText identity).length = 16 := by decide
  rw [Question.maxWireLength] at bounded
  rw [Reply.length_identity, length_of_read header, Question.append_of_read question,
    List.length_append, text, Header.size, Reply.maxLength]
  omega

end Length

end Policy

end ResolverGate
