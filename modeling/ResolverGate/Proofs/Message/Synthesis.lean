import ResolverGate.Proofs.Message.Question
import ResolverGate.Proofs.Options

/-! # Our own replies, read back

What we write in answer to a question is a message like any other: it reads back as the
question that it answers, with the records that its header counts and nothing behind them.
-/

namespace ResolverGate

/-- A header in answer to `query` which counts one question. QR and RA are set, RD and CD are
the query's, and no other bit is set but those of the code. -/
structure Header.RepliesTo (query : Header) (code : Rcode) (ancount arcount : Nat)
    (reply : Header) : Prop where
  id : reply.id = query.id
  bit : ∀ i, reply.bit i = true ↔
    i = 15 ∨ i = 7 ∨ (i = 8 ∨ i = 4) ∧ query.bit i = true ∨ code.code.toNat.testBit i = true
  rcode : reply.rcode = code.code
  qdcount : reply.qdcount = 1
  ancount : reply.ancount.toNat = ancount
  nscount : reply.nscount = 0
  arcount : reply.arcount.toNat = arcount

namespace Reply

variable {packet rest : Bytes} {q : Question}

theorem testBit_flags (query : Header) (code : Rcode) (i : Nat) :
    (flags query code).toNat.testBit i = true ↔
      i = 15 ∨ i = 7 ∨ (i = 8 ∨ i = 4) ∧ query.bit i = true ∨ code.code.toNat.testBit i = true := by
  have flag {mask : UInt16} {n : Nat} (single : mask.toNat = 2 ^ n) :
      mask.toNat.testBit i = true ↔ i = n := by
    rw [single, Nat.testBit_two_pow, decide_eq_true_iff, eq_comm]
  have qr : Header.qr.toNat.testBit i = true ↔ i = 15 := flag rfl
  have ra : Header.ra.toNat.testBit i = true ↔ i = 7 := flag rfl
  have rd : Header.rd.toNat.testBit i = true ↔ i = 8 := flag rfl
  have cd : Header.cd.toNat.testBit i = true ↔ i = 4 := flag rfl
  simp only [flags, UInt16.toNat_or, UInt16.toNat_and, Nat.testBit_or, Nat.testBit_and,
    Bool.or_eq_true, Bool.and_eq_true, qr, ra, rd, cd, Header.bit, or_assoc,
    and_comm (a := query.flags.toNat.testBit i = true)]

/-- Behind a header and its own octets a question is read again. -/
theorem ofMessage_echo (asked : Question.ofMessage packet = .ok (q, rest)) (header : Header)
    (tail : Bytes) : Question.ofMessage (header.encode ++ q.wire ++ tail) = .ok (q, tail) := by
  obtain ⟨ls, qtype, qclass, valid, short, rfl, -⟩ := Question.read_eq_ok_iff.mp asked
  exact Question.ofMessage_encode valid short qtype qclass

def identitySpan (text : Bytes) : RecordSpan where
  owner := [0xC0, 0x0C]
  rtype := .txt
  rclass := RecordClass.chaos.code
  ttl := 0
  rdata := UInt8.ofNat text.length :: text

theorem wellFormed_identitySpan {text : Bytes} (short : text.length ≤ 255) :
    (identitySpan text).WellFormed := by
  refine ⟨.pointer 12 (by decide), ?_⟩
  rw [identitySpan, List.length_cons]
  omega

theorem identity_eq (h : Header) (q : Question) (text : String) : identity h q text =
    (⟨h.id, flags h .noError, 1, 1, 0, 0⟩ : Header).encode ++ q.wire ++
      (identitySpan ((Bytes.ofText text).take 255)).encode := by
  simp [identity, identitySpan, RecordSpan.encode]

theorem repliesTo_errorHeader (h : Header) (q : Question) (edns : Option Edns) (code : Rcode) :
    h.RepliesTo code 0 (if edns.isSome then 1 else 0) (errorHeader h (some q) edns code) := by
  refine ⟨rfl, testBit_flags h code, flags_and_rcodeMask h code, rfl, rfl, rfl, ?_⟩
  cases edns <;> rfl

/-- The reply opens with the header, an answer to `query`. Behind it stand the question, the
records that are counted, and nothing else. -/
structure ReadsBack (query : Header) (code : Rcode) (q : Question) (ancount arcount : Nat)
    (header : Header) (reply : Bytes) : Prop where
  opens : ∃ body, Header.read? reply = some (header, body)
  answers : query.RepliesTo code ancount arcount header
  question : Question.ofMessage reply = .ok (q, reply.drop q.ending)
  records : RecordSpan.skip? (ancount + arcount) (reply.drop q.ending) = some []

theorem readsBack_append (asked : Question.ofMessage packet = .ok (q, rest))
    {header query : Header} {code : Rcode} {rs : List RecordSpan} {ancount arcount : Nat}
    (answers : query.RepliesTo code ancount arcount header)
    (wellFormed : ∀ r ∈ rs, r.WellFormed) (counted : rs.length = ancount + arcount) :
    ReadsBack query code q ancount arcount header
      (header.encode ++ q.wire ++ rs.flatMap RecordSpan.encode) := by
  have echoed := ofMessage_echo asked header (rs.flatMap RecordSpan.encode)
  have behind := Question.drop_ending echoed
  refine ⟨⟨q.wire ++ rs.flatMap RecordSpan.encode, ?_⟩, answers, ?_, ?_⟩
  · rw [List.append_assoc]
    exact Header.read?_encode header _
  · rw [behind]
    exact echoed
  · rw [behind]
    exact RecordSpan.skip?_eq_some_iff.mpr ⟨rs, counted, wellFormed, (List.append_nil _).symm⟩

structure Shows (r : RecordSpan) (text : Bytes) : Prop where
  owner : r.owner = [0xC0, 0x0C]
  rtype : r.rtype = .txt
  rclass : r.rclass = RecordClass.chaos.code
  rdata : ∃ n : UInt8, n.toNat = text.length ∧ r.rdata = n :: text

theorem shows_identitySpan {text : Bytes} (short : text.length ≤ 255) :
    Shows (identitySpan text) text := by
  refine ⟨rfl, rfl, rfl, UInt8.ofNat text.length, ?_, rfl⟩
  rw [UInt8.toNat_ofNat', Nat.mod_eq_of_lt (by omega)]

theorem fetch?_identity (h : Header) (q : Question) (text : String) :
    (identity h q text).fetch? (q.ending + 10) 2 =
      some (Bytes.of16 (UInt16.ofNat (((Bytes.ofText text).take 255).length + 1))) := by
  let header : Header := ⟨h.id, flags h .noError, 1, 1, 0, 0⟩
  let front := header.encode ++ q.wire ++ [0xC0, 0x0C] ++ Bytes.of16 RecordType.txt.code ++
    Bytes.of16 RecordClass.chaos.code ++ Bytes.of32 0
  have length : front.length = q.ending + 10 := by
    simp [front, Question.ending, Nat.add_assoc]
  have word := Bytes.fetch?_append front
    (Bytes.of16 (UInt16.ofNat (((Bytes.ofText text).take 255).length + 1)))
    (UInt8.ofNat ((Bytes.ofText text).take 255).length :: (Bytes.ofText text).take 255)
  rw [length, Bytes.length_of16, ← List.append_assoc] at word
  exact word

/-- What we write of a question that we have read reads back as that question. An error reply
has the header, the OPT record and the end that the query calls for. An identity reply holds one
TXT record with the text, as far as one octet can count it, and the record's length says so. -/
theorem reads_back (asked : Question.ofMessage packet = .ok (q, rest)) (h : Header) :
    (∀ (edns : Option Edns) (code : Rcode), ∃ header,
      ReadsBack h code q 0 (if edns.isSome then 1 else 0) header (error h (some q) edns code) ∧
      Edns.read header ((error h (some q) edns code).drop q.ending) =
        .ok (edns.map fun e => ⟨4096, 0, e.dnssecOk⟩)) ∧
    (∀ text : String, ∃ header r, ReadsBack h .noError q 1 0 header (identity h q text) ∧
      RecordSpan.read? ((identity h q text).drop q.ending) = some (r, []) ∧
      Shows r ((Bytes.ofText text).take 255) ∧
      ∃ length : UInt16, length.toNat = ((Bytes.ofText text).take 255).length + 1 ∧
        (identity h q text).fetch? (q.ending + 10) 2 = some (Bytes.of16 length)) := by
  constructor
  · intro edns code
    have octets : error h (some q) edns code = (errorHeader h (some q) edns code).encode ++
        q.wire ++ (answering edns).flatMap RecordSpan.encode :=
      (error_eq h (some q) edns code).trans (by simp)
    have counted := (arcount_errorHeader h (some q) edns code).symm
    have answers := repliesTo_errorHeader h q edns code
    have wellFormed : ∀ r ∈ answering edns, r.WellFormed := fun r hr => (of_mem_answering hr).1
    have options : Edns.optRecords (answering edns) = answering edns :=
      List.filter_eq_self.mpr fun r hr => decide_eq_true (of_mem_answering hr).2
    have echoed := ofMessage_echo asked (errorHeader h (some q) edns code)
      ((answering edns).flatMap RecordSpan.encode)
    refine ⟨errorHeader h (some q) edns code, ?_, ?_⟩
    · rw [octets]
      exact readsBack_append asked answers wellFormed
        (counted.trans (answers.arcount.trans (Nat.zero_add _).symm))
    · rw [octets, Question.drop_ending echoed]
      refine Edns.read_eq_ok_iff.mpr ⟨[], [], answering edns, [],
        ⟨rfl, nofun, rfl, nofun, counted, wellFormed, by simp⟩, ?_⟩
      rw [options]
      exact announced_answering edns
  · intro text
    have short : ((Bytes.ofText text).take 255).length ≤ 255 := List.length_take_le _ _
    let record := identitySpan ((Bytes.ofText text).take 255)
    let header : Header := ⟨h.id, flags h .noError, 1, 1, 0, 0⟩
    have octets : identity h q text =
        header.encode ++ q.wire ++ [record].flatMap RecordSpan.encode :=
      (identity_eq h q text).trans (by simp [header, record])
    have answers : h.RepliesTo .noError 1 0 header :=
      ⟨rfl, testBit_flags h .noError, flags_and_rcodeMask h .noError, rfl, rfl, rfl, rfl⟩
    have wellFormed : ∀ r ∈ [record], r.WellFormed := by
      intro r hr
      obtain rfl := List.mem_singleton.mp hr
      exact wellFormed_identitySpan short
    have echoed := ofMessage_echo asked header ([record].flatMap RecordSpan.encode)
    refine ⟨header, record, ?_, ?_, shows_identitySpan short, _, ?_, fetch?_identity h q text⟩
    · rw [octets]
      exact readsBack_append asked answers wellFormed rfl
    · rw [octets, Question.drop_ending echoed]
      exact RecordSpan.read?_eq_some_iff.mpr ⟨wellFormed record List.mem_cons_self, by simp⟩
    · rw [UInt16.toNat_ofNat', Nat.mod_eq_of_lt (by omega)]

/-- A refusal with an OPT record, and an identity of two letters. -/
theorem reads_back_identity_question :
    let q : Question := ⟨"a.", ⟨16⟩, .chaos, [1, 97, 0, 0, 16, 0, 3]⟩
    let h : Header := ⟨7, 0x0110, 1, 0, 0, 1⟩
    let packet := h.encode ++ q.wire ++ [0, 0, 41, 4, 208, 0, 0, 128, 0, 0, 0]
    let refusal : Bytes := [0, 7, 0x81, 0x95, 0, 1, 0, 0, 0, 0, 0, 1] ++ q.wire ++
      [0, 0, 41, 16, 0, 0, 0, 128, 0, 0, 0]
    let told : Bytes := [0, 7, 0x81, 0x90, 0, 1, 0, 1, 0, 0, 0, 0] ++ q.wire ++
      [192, 12, 0, 16, 0, 3, 0, 0, 0, 0, 0, 3, 2, 117, 115]
    Question.ofMessage packet = .ok (q, packet.drop 19) ∧
      (∃ header, ReadsBack h .refused q 0 1 header refusal) ∧
      ∃ header, ReadsBack h .noError q 1 0 header told := by
  intro q h packet refusal told
  have asked : Question.ofMessage packet = .ok (q, packet.drop 19) := by decide +kernel
  have refused : error h (some q) (some ⟨1232, 0, true⟩) .refused = refusal := by decide +kernel
  have identified : identity h q "us" = told := by decide +kernel
  obtain ⟨errors, identities⟩ := reads_back asked h
  refine ⟨asked, ?_, ?_⟩
  · obtain ⟨header, back, -⟩ := errors (some ⟨1232, 0, true⟩) .refused
    exact ⟨header, refused ▸ back⟩
  · obtain ⟨header, _, back, -⟩ := identities "us"
    exact ⟨header, identified ▸ back⟩

end Reply

end ResolverGate
