import ResolverGate.Proofs.Blocking

/-! # OPT records of refusals

Whoever is refused behind the search for an OPT record is told of ours just when there is one
to answer. The checks that the header alone decides come before that search, and what they
refuse is answered without.
-/

namespace ResolverGate

namespace Reply

/-- An error reply as it stands on the wire: the question, and behind it the OPT records that
the header counts, which announce our payload size and the client's DO bit. -/
inductive Spelt (code : Rcode) (question : Option Question) (edns : Option Edns) : Bytes → Prop
  | intro {header : Header} {additional : List RecordSpan} (response : header.isResponse = true)
      (coded : header.rcode = code.code)
      (asked : header.qdcount.toNat = question.toList.length) (unanswered : header.ancount = 0)
      (unreferred : header.nscount = 0) (counted : header.arcount.toNat = additional.length)
      (records : ∀ r ∈ additional, r.WellFormed ∧ r.rtype = .opt)
      (announced : Edns.Announced additional (edns.map fun e => ⟨announcedSize, 0, e.dnssecOk⟩)) :
      Spelt code question edns (header.encode ++ question.toList.flatMap (·.wire) ++
        additional.flatMap RecordSpan.encode)

/-- The OPT record that answers one. -/
def optSpan (dnssecOk : Bool) : RecordSpan where
  owner := [0]
  rtype := .opt
  rclass := announcedSize
  ttl := if dnssecOk then Edns.doBit else 0
  rdata := []

theorem encode_optSpan (dnssecOk : Bool) : (optSpan dnssecOk).encode = optRecord dnssecOk := by
  cases dnssecOk <;> rfl

theorem announced_optSpan (dnssecOk : Bool) :
    Edns.Announced [optSpan dnssecOk] (some ⟨announcedSize, 0, dnssecOk⟩) := by
  have ttl : Bytes.of32 (optSpan dnssecOk).ttl = [0, 0, if dnssecOk then 128 else 0, 0] := by
    cases dnssecOk <;> rfl
  have announced := Edns.Announced.once (r := optSpan dnssecOk) rfl ttl
  cases dnssecOk <;> exact announced

def answering (edns : Option Edns) : List RecordSpan :=
  (edns.map fun e => optSpan e.dnssecOk).toList

theorem of_mem_answering {edns : Option Edns} {r : RecordSpan} (h : r ∈ answering edns) :
    r.WellFormed ∧ r.rtype = .opt := by
  obtain ⟨e, -, rfl⟩ := Option.map_eq_some_iff.mp (Option.mem_toList.mp h)
  exact ⟨⟨.root, by simp [optSpan]⟩, rfl⟩

theorem announced_answering (edns : Option Edns) :
    Edns.Announced (answering edns) (edns.map fun e => ⟨announcedSize, 0, e.dnssecOk⟩) := by
  cases edns with
  | none => exact .nothing
  | some e => exact announced_optSpan e.dnssecOk

def errorHeader (h : Header) (question : Option Question) (edns : Option Edns) (code : Rcode) :
    Header :=
  ⟨h.id, flags h code, if question.isSome then 1 else 0, 0, 0, if edns.isSome then 1 else 0⟩

theorem arcount_errorHeader (h : Header) (question : Option Question) (edns : Option Edns)
    (code : Rcode) :
    (errorHeader h question edns code).arcount.toNat = (answering edns).length := by
  cases edns <;> rfl

theorem error_eq (h : Header) (question : Option Question) (edns : Option Edns) (code : Rcode) :
    error h question edns code = (errorHeader h question edns code).encode ++
      question.toList.flatMap (·.wire) ++ (answering edns).flatMap RecordSpan.encode := by
  cases question <;> cases edns <;> simp [error, errorHeader, answering, encode_optSpan]

theorem spelt_error (h : Header) (question : Option Question) (edns : Option Edns)
    (code : Rcode) : Spelt code question edns (error h question edns code) := by
  have response : (errorHeader h question edns code).isResponse = true := by
    rw [Header.isResponse, errorHeader, flags_and_qr]
    rfl
  have asked : (errorHeader h question edns code).qdcount.toNat = question.toList.length := by
    cases question <;> rfl
  rw [error_eq]
  exact .intro response (flags_and_rcodeMask h code) asked rfl rfl
    (arcount_errorHeader h question edns code) (fun r hr => of_mem_answering hr)
    (announced_answering edns)

end Reply

namespace Policy

variable {policy : Policy} {m body rest reply : Bytes} {h : Header} {q : Question}
  {edns : Option Edns} {r : Refusal}

theorem reply_of_judgeQuery {query : Query} (refused : policy.judgeQuery query = .refuse r reply) :
    reply = query.errorReply r.rcode := by
  unfold judgeQuery at refused
  have made {r' : Refusal} (same : Admission.refuse r' (query.errorReply r'.rcode) =
      .refuse r reply) : reply = query.errorReply r.rcode := by
    obtain ⟨rfl, rfl⟩ := Admission.refuse.inj same
    rfl
  split at refused
  · exact made refused
  split at refused
  · exact made refused
  split at refused
  · exact made refused
  split at refused
  · split at refused
    · cases refused
    · exact made refused
  · cases refused

/-- Where the header alone decides, no OPT record is looked for. -/
theorem reply_of_not_forwardable (header : Header.read? m = some (h, body))
    (question : Question.read body = .ok (q, rest)) (settled : ¬ h.Forwardable)
    (refused : policy.judge m = .refuse r reply) :
    reply = Reply.error h (if h.qdcount = 0 then none else some q) none r.rcode := by
  rw [Header.forwardable_iff] at settled
  rw [judge, header] at refused
  simp only at refused
  split at refused
  · cases refused
  next request =>
  by_cases asking : h.qdcount = 0
  · simp only [asking, if_true] at refused ⊢
    obtain ⟨rfl, rfl⟩ := Admission.refuse.inj refused
    rfl
  simp only [asking, if_false, question] at refused ⊢
  cases found : headerRefusal? h with
  | none => exact absurd ⟨by simpa using request, asking, found⟩ settled
  | some r' =>
    simp only [found] at refused
    obtain ⟨rfl, rfl⟩ := Admission.refuse.inj refused
    rfl

/-- Of a message whose question and records can be read, what is refused behind the header's
checks is answered with an OPT record for an OPT record, and what they refuse without one. -/
theorem judge_options (header : Header.read? m = some (h, body))
    (question : Question.read body = .ok (q, rest)) (options : Edns.read h rest = .ok edns)
    (refused : policy.judge m = .refuse r reply) :
    (h.Forwardable → Reply.Spelt r.rcode (some q) edns reply) ∧
      (¬ h.Forwardable →
        Reply.Spelt r.rcode (if h.qdcount = 0 then none else some q) none reply) := by
  refine ⟨fun forwardable => ?_, fun settled => ?_⟩
  · have spelt : (⟨h, q, edns⟩ : Query).SpeltBy m :=
      speltBy_iff.mpr ⟨body, rest, header, question, options⟩
    rw [judge_eq_judgeQuery spelt forwardable] at refused
    rw [reply_of_judgeQuery refused]
    exact Reply.spelt_error h q edns r.rcode
  · rw [reply_of_not_forwardable header question settled refused]
    exact Reply.spelt_error h _ none r.rcode

/-- A zone transfer with an OPT record that sets DO. -/
theorem judge_options_transfer :
    let question : Question := ⟨".", ⟨252⟩, ⟨1⟩, [0, 0, 252, 0, 1]⟩
    let m : Bytes := [0, 7, 1, 0, 0, 1, 0, 0, 0, 0, 0, 1] ++ question.wire ++
      [0, 0, 41, 4, 208, 0, 0, 128, 0, 0, 0]
    let reply : Bytes := [0, 7, 0x81, 0x85, 0, 1, 0, 0, 0, 0, 0, 1] ++ question.wire ++
      [0, 0, 41, 16, 0, 0, 0, 128, 0, 0, 0]
    judge ⟨.empty, false⟩ m = .refuse .zoneTransfer reply ∧
      Reply.Spelt .refused (some question) (some ⟨1232, 0, true⟩) reply := by
  intro question m reply
  let h : Header := ⟨7, 0x0100, 1, 0, 0, 1⟩
  let opt : Bytes := [0, 0, 41, 4, 208, 0, 0, 128, 0, 0, 0]
  have header : Header.read? m = some (h, question.wire ++ opt) := rfl
  have asked : Question.read (question.wire ++ opt) = .ok (question, opt) := by decide +kernel
  have options : Edns.read h opt = .ok (some ⟨1232, 0, true⟩) := by decide +kernel
  have forwardable : h.Forwardable := Header.forwardable_iff.mpr (by decide)
  have refused : judge ⟨.empty, false⟩ m = .refuse .zoneTransfer reply := by decide +kernel
  exact ⟨refused, (judge_options header asked options refused).1 forwardable⟩

/-- With TC set such a record is not answered. -/
theorem judge_options_truncated : ∃ (m body rest reply : Bytes) (h : Header) (q : Question)
    (e : Edns), Header.read? m = some (h, body) ∧ Question.read body = .ok (q, rest) ∧
      Edns.read h rest = .ok (some e) ∧
      judge ⟨.empty, false⟩ m = .refuse .truncated reply ∧
      ¬ Reply.Spelt .formErr (some q) (some e) reply := by
  let question : Question := ⟨".", ⟨1⟩, ⟨1⟩, [0, 0, 1, 0, 1]⟩
  let opt : Bytes := [0, 0, 41, 4, 208, 0, 0, 128, 0, 0, 0]
  let reply : Bytes := [0, 7, 0x81, 0x81, 0, 1, 0, 0, 0, 0, 0, 0] ++ question.wire
  refine ⟨[0, 7, 3, 0, 0, 1, 0, 0, 0, 0, 0, 1] ++ question.wire ++ opt, question.wire ++ opt, opt,
    reply, ⟨7, 0x0300, 1, 0, 0, 1⟩, question, ⟨1232, 0, true⟩, rfl,
    by decide +kernel, by decide +kernel, by decide +kernel, ?_⟩
  intro spelt
  generalize made : reply = octets at spelt
  cases spelt with
  | @intro header additional _ _ _ _ _ _ records announced =>
    -- The record would take eleven octets, and the reply ends behind the question.
    have length := congrArg List.length made
    generalize told : Option.map _ _ = options at announced
    cases announced with
    | nothing => cases told
    | @once r =>
      have := (records r List.mem_cons_self).1.length_encode
      simp [reply, question, Header.length_encode, Header.size] at length
      omega

end Policy

end ResolverGate
