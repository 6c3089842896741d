import ResolverGate.Proofs.Answer.Layout
import ResolverGate.Proofs.Answer.Standard
import ResolverGate.Proofs.Engine.Fate

/-! # Replies made from answers

A reply made from the engine's answer is the client's own: its id, its question and its
flags, within its limit. It holds the fullest choice of sections that fits, and says by TC
when it holds none. Of the codec only that its writers append is used; of the standard one more
is known.
-/

namespace ResolverGate

/-- What ends a reply. Clients with EDNS get an OPT record: owned by the root, for UDP
payloads of 4096 octets, with the given DO bit and without data. -/
def Query.opt (q : Query) (dnssecOk : Bool) : Bytes :=
  if q.edns.isSome then [0, 0, 41, 0x10, 0, 0, 0, if dnssecOk then 0x80 else 0, 0, 0, 0] else []

theorem Query.length_opt_le (q : Query) (dnssecOk : Bool) : (q.opt dnssecOk).length ≤ 11 := by
  rw [opt]
  split <;> simp

theorem Query.le_maxAnswerSize (q : Query) (transport : Transport) :
    512 ≤ q.maxAnswerSize transport := by
  cases transport with
  | tcp =>
    rw [maxAnswerSize]
    decide
  | udp =>
    have le_max (v w : UInt16) : w ≤ max v w := by
      change w ≤ if v ≤ w then w else v
      split
      · exact UInt16.le_refl w
      · next h => exact UInt16.le_of_lt (UInt16.not_le.mp h)
    exact le_max _ _

namespace Answer

variable {R W : Type} {codec : Codec R W} {answer body m : Bytes} {query : Query}
  {limits : Limits} {a : Header} {sections : Sections R}

/-- The reply with the records of `s` and without TC is no longer than it may be. -/
def Fits (codec : Codec R W) (a : Header) (query : Query) (limits : Limits) (s : Sections R) :
    Prop :=
  ∃ m, encode codec query (replyFlags a.flags query limits.dnssecOk) s (query.opt limits.dnssecOk)
    = .ok m ∧ m.length ≤ limits.maxSize.toNat

theorem exists_of_reply (h : reply codec answer query limits = .ok m) :
    ∃ a body sections, Header.read? answer = some (a, body) ∧
      codec.sections answer = .ok sections := by
  rw [reply] at h
  split at h
  · cases h
  next a body ha =>
  split at h
  · cases h
  · next sections hs => exact ⟨a, body, sections, ha, hs⟩

theorem reply_eq_encodeFitting (ha : Header.read? answer = some (a, body))
    (hs : codec.sections answer = .ok sections) : reply codec answer query limits =
      encodeFitting codec query (replyFlags a.flags query limits.dnssecOk)
        (query.opt limits.dnssecOk) limits.maxSize.toNat
        (sections.kept codec limits query.question.qtype a.rcode).layouts := by
  have opt : (if query.edns.isSome then Reply.optRecord limits.dnssecOk else []) =
      query.opt limits.dnssecOk := by
    cases limits.dnssecOk <;> rfl
  simp only [reply, ha, hs, opt]

/-- A reply is a layout of the records that its client should see. -/
theorem reply_laidOut (lawful : codec.Lawful) (ha : Header.read? answer = some (a, body))
    (hs : codec.sections answer = .ok sections) (h : reply codec answer query limits = .ok m) :
    ∃ kept s truncated header,
      Keeps codec limits query.question.qtype a.rcode sections kept ∧
      Chosen (Fits codec a query limits) kept s truncated ∧
      LaidOut codec s header query.question (query.opt limits.dnssecOk) m ∧
      header.Mirrors query.header a limits.dnssecOk truncated ∧
      (truncated = false → m.length ≤ limits.maxSize.toNat) ∧
      ∀ r ∈ s.records, Wanted limits.dnssecOk query.question.qtype (codec.rtype r) := by
  rw [reply_eq_encodeFitting ha hs] at h
  obtain ⟨s, truncated, chosen, hm, fits⟩ := chosen_of_encodeFitting h
  have keeps := keeps_kept codec limits query.question.qtype a.rcode sections
  obtain ⟨header, id, flags, laidOut⟩ := laidOut_of_encode lawful hm
  exact ⟨_, s, truncated, header, keeps, chosen, laidOut, mirrors_of_flags id flags, fits,
    fun r hr => (keeps.mem_records (chosen.mem_records hr)).2⟩

theorem LaidOut.le_of_empty {h : Header} {q : Question} {opt : Bytes}
    (laidOut : LaidOut codec .empty h q opt m) (short : q.wire.length ≤ Question.maxWireLength)
    (few : opt.length ≤ 11) : m.length ≤ 512 := by
  rw [laidOut.length_of_empty, Header.size]
  rw [Question.maxWireLength] at short
  omega

/-- A reply made from any answer belongs to the client and fits its limit, on TCP behind its
length as well. -/
theorem reply_belongs {message rest : Bytes} (lawful : codec.Lawful)
    (question : Question.ofMessage message = .ok (query.question, rest))
    (large : 512 ≤ limits.maxSize) (h : reply codec answer query limits = .ok m) :
    ∃ a body header s truncated, Header.read? answer = some (a, body) ∧
      header.Mirrors query.header a limits.dnssecOk truncated ∧
      LaidOut codec s header query.question (query.opt limits.dnssecOk) m ∧
      (∀ r ∈ s.records, codec.rtype r ≠ .opt) ∧
      query.question.wire <+: message.drop 12 ∧ query.question.wire <+: m.drop 12 ∧
      m.length ≤ limits.maxSize.toNat ∧
      (∀ transport, 512 ≤ query.maxAnswerSize transport) ∧
      ∀ {C : Type} (p : Pending C) (conn : C) (memory : Memory), p.origin = .tcp conn →
        memory .framed (m.length + 2) = true →
        p.sendAnswer memory m = .keep
          { p with answer := .ofBytes (Bytes.ofNumber 2 m.length ++ m), stage := .writing }
          .startWriting := by
  obtain ⟨a, body, sections, ha, hs⟩ := exists_of_reply h
  obtain ⟨kept, s, truncated, header, -, chosen, laidOut, mirrors, fits, wanted⟩ :=
    reply_laidOut lawful ha hs h
  have bounded : query.question.wire.length ≤ 259 := Question.length_wire_of_read question
  have minimum : 512 ≤ limits.maxSize.toNat := UInt16.le_iff_toNat_le.mp large
  have opens : query.question.wire <+: m.drop 12 := by
    obtain ⟨w, records, w', -, -, rfl⟩ := laidOut.octets
    have size : header.encode.length = 12 := header.length_encode
    rw [List.append_assoc, List.append_assoc, List.drop_left' size]
    exact List.prefix_append _ _
  have short : m.length ≤ limits.maxSize.toNat := by
    cases truncated with
    | false => exact fits rfl
    | true =>
      obtain rfl := chosen.empty_of_truncated
      exact (laidOut.le_of_empty bounded (query.length_opt_le _)).trans minimum
  refine ⟨a, body, header, s, truncated, ha, mirrors, laidOut, ?_, ?_, opens, short, ?_, ?_⟩
  · intro r hr opt
    exact (wanted r hr).1 (congrArg RecordType.code opt)
  · exact ⟨rest, (Question.append_of_read question).symm⟩
  · exact query.le_maxAnswerSize
  · intro C p conn memory tcp room
    exact Pending.sendAnswer_tcp tcp (Nat.lt_of_le_of_lt short limits.maxSize.toNat_lt) room

/-- An answer with AD for a client that set neither DO nor AD. -/
theorem reply_belongs_unsigned :
    let question : Question := ⟨"a.", ⟨1⟩, ⟨1⟩, [1, 97, 0, 0, 1, 0, 1]⟩
    let query : Query := ⟨⟨9, 0x0110, 1, 0, 0, 1⟩, question, some ⟨1232, 0, false⟩⟩
    let answer : Bytes := [0, 7, 0x84, 0x20, 0, 1, 0, 1, 0, 0, 0, 0] ++ question.wire
      ++ [0xC0, 12, 0, 1, 0, 1, 0, 0, 0, 60, 0, 4, 192, 0, 2, 1]
    let m : Bytes := [0, 9, 0x85, 0x90, 0, 1, 0, 1, 0, 0, 0, 1] ++ question.wire
      ++ [1, 97, 0, 0, 1, 0, 1, 0, 0, 0, 60, 0, 4, 192, 0, 2, 1]
      ++ [0, 0, 41, 0x10, 0, 0, 0, 0, 0, 0, 0]
    reply .standard answer query ⟨512, false, true⟩ = .ok m ∧
      ∃ a body header s truncated, Header.read? answer = some (a, body) ∧
        header.Mirrors query.header a false truncated ∧
        LaidOut .standard s header question (query.opt false) m ∧
        (∀ r ∈ s.records, r.rtype ≠ .opt) ∧ m.length ≤ 512 := by
  intro question query answer m
  have asked : Question.ofMessage ([0, 9, 0x01, 0x10, 0, 1, 0, 0, 0, 0, 0, 1] ++ question.wire
      ++ [0, 0, 41, 4, 208, 0, 0, 0, 0, 0, 0]) =
      .ok (question, [0, 0, 41, 4, 208, 0, 0, 0, 0, 0, 0]) := by decide +kernel
  have h : reply .standard answer query ⟨512, false, true⟩ = .ok m := by decide +kernel
  obtain ⟨a, body, header, s, truncated, ha, mirrors, laidOut, others, -, -, short, -⟩ :=
    reply_belongs lawful_standard asked (by decide) h
  exact ⟨h, a, body, header, s, truncated, ha, mirrors, laidOut, others, short⟩

/-- A reply holds the fullest choice of the records that its client should see, and each of
its sections whole or not at all. -/
theorem reply_fullest (lawful : codec.Lawful) (ha : Header.read? answer = some (a, body))
    (hs : codec.sections answer = .ok sections) (h : reply codec answer query limits = .ok m) :
    ∃ kept s truncated header,
      Keeps codec limits query.question.qtype a.rcode sections kept ∧
      Chosen (Fits codec a query limits) kept s truncated ∧
      LaidOut codec s header query.question (query.opt limits.dnssecOk) m ∧
      header.truncated = truncated ∧
      (header.truncated = false → s.answers = kept.answers) ∧
      (limits.dnssecOk = false → ∀ r ∈ s.records, (codec.rtype r).code ∈ [46, 47, 50] →
        codec.rtype r = query.question.qtype) := by
  obtain ⟨kept, s, truncated, header, keeps, chosen, laidOut, mirrors, -, wanted⟩ :=
    reply_laidOut lawful ha hs h
  have tc : header.truncated = truncated := header.truncated_eq_bit.trans mirrors.truncated
  refine ⟨kept, s, truncated, header, keeps, chosen, laidOut, tc, ?_, ?_⟩
  · intro clear
    obtain rfl : truncated = false := tc.symm.trans clear
    exact chosen.answers_eq
  · intro plain r hr dnssec
    exact ((wanted r hr).2 dnssec).resolve_left (by simp [plain])

/-- Of two records one fits, and TC stays clear. -/
theorem reply_fullest_without_additional :
    let question : Question := ⟨"a.", ⟨1⟩, ⟨1⟩, [1, 97, 0, 0, 1, 0, 1]⟩
    let query : Query := ⟨⟨9, 0x0100, 1, 0, 0, 1⟩, question, some ⟨1232, 0, true⟩⟩
    let answer : Bytes := [0, 7, 0x84, 0, 0, 1, 0, 1, 0, 0, 0, 1] ++ question.wire
      ++ [0xC0, 12, 0, 1, 0, 1, 0, 0, 0, 60, 0, 4, 192, 0, 2, 1]
      ++ [1, 98, 0xC0, 12, 0, 16, 0, 1, 0, 0, 0, 60, 0, 2, 1, 99]
    let m : Bytes := [0, 9, 0x85, 0x80, 0, 1, 0, 1, 0, 0, 0, 1] ++ question.wire
      ++ [1, 97, 0, 0, 1, 0, 1, 0, 0, 0, 60, 0, 4, 192, 0, 2, 1]
      ++ [0, 0, 41, 0x10, 0, 0, 0, 0x80, 0, 0, 0]
    reply .standard answer query ⟨50, true, false⟩ = .ok m ∧
      ∃ a sections kept s truncated header,
        Codec.standard.sections answer = .ok sections ∧
        Keeps .standard ⟨50, true, false⟩ ⟨1⟩ a.rcode sections kept ∧
        Chosen (Fits .standard a query ⟨50, true, false⟩) kept s truncated ∧
        LaidOut .standard s header question (query.opt true) m ∧ header.truncated = truncated ∧
        (header.truncated = false → s.answers = kept.answers) := by
  intro question query answer m
  let a : Header := ⟨7, 0x8400, 1, 1, 0, 1⟩
  have ha : Header.read? answer = some (a, answer.drop 12) := rfl
  have hs : Codec.standard.sections answer = .ok
      ⟨[⟨[[97]], ⟨1⟩, 1, 60, [.octets [192], .octets [0], .octets [2], .octets [1]]⟩], [],
        [⟨[[98], [97]], ⟨16⟩, 1, 60, [.octets [1, 99]]⟩]⟩ := by decide +kernel
  have h : reply .standard answer query ⟨50, true, false⟩ = .ok m := by decide +kernel
  obtain ⟨kept, s, truncated, header, keeps, chosen, laidOut, tc, whole, -⟩ :=
    reply_fullest lawful_standard ha hs h
  exact ⟨h, a, _, kept, s, truncated, header, hs, keeps, chosen, laidOut, tc, whole⟩

/-! ## The standard codec -/

theorem valid_of_sections {s : Sections Record} (hs : Codec.standard.sections answer = .ok s) :
    ∀ r ∈ s.records, r.Valid := by
  simp only [Codec.standard] at hs
  split at hs
  · cases hs
  · exact valid_of_readSections (mapError_eq_ok_iff.mp hs)

/-- In a reply of the standard codec the records that it holds of the answer can be read: they
stand one behind the other, between the question and the OPT record. -/
theorem reply_stands (h : reply .standard answer query limits = .ok m) :
    ∃ sections rs, Codec.standard.sections answer = .ok sections ∧ rs ⊆ sections.records ∧
      Row (Record.Stands m.toArray) rs (Header.size + query.question.wire.length)
        (m.length - (query.opt limits.dnssecOk).length) := by
  obtain ⟨a, body, sections, ha, hs⟩ := exists_of_reply h
  obtain ⟨kept, s, truncated, header, keeps, chosen, laidOut, -⟩ :=
    reply_laidOut lawful_standard ha hs h
  have held : s.records ⊆ sections.records := fun r hr =>
    (keeps.mem_records (chosen.mem_records hr)).1
  exact ⟨sections, s.records, hs, held,
    laidOut.stands fun r hr => valid_of_sections hs r (held hr)⟩

end Answer

end ResolverGate
