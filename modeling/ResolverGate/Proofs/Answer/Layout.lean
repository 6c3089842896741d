import ResolverGate.Proofs.Answer.Emission
import ResolverGate.Proofs.Message.Grammar

/-! # Layouts of an answer

What a reply is made of: the flags of its header, the records a client should see, and
the layout that is chosen for them.
-/

namespace ResolverGate

/-! ## Flags -/

theorem field_eq_of_bits {m n k b : Nat} (same : ∀ i < b, m.testBit (i + k) = n.testBit (i + k)) :
    m / 2 ^ k % 2 ^ b = n / 2 ^ k % 2 ^ b := by
  apply Nat.eq_of_testBit_eq
  intro i
  simp only [Nat.testBit_mod_two_pow, Nat.testBit_div_two_pow]
  by_cases hi : i < b
  · rw [same i hi]
  · simp [hi]

namespace Header

variable {g h : Header}

theorem toNat_rcode (h : Header) : h.rcode.toNat = h.flags.toNat % 16 := by
  rw [rcode, UInt16.toNat_and]
  exact Nat.and_two_pow_sub_one_eq_mod h.flags.toNat 4

theorem rcode_eq_of_bits (same : ∀ i < 4, g.bit i = h.bit i) : g.rcode = h.rcode := by
  rw [← UInt16.toNat_inj, toNat_rcode, toNat_rcode]
  simpa using field_eq_of_bits (k := 0) (b := 4) same

theorem opcode_eq_zero_of_bits (clear : ∀ i < 4, h.bit (i + 11) = false) : h.opcode = 0 := by
  rw [← UInt16.toNat_inj, toNat_opcode]
  have none : ∀ i < 4, h.flags.toNat.testBit (i + 11) = Nat.testBit 0 (i + 11) := by
    simpa [bit] using clear
  exact field_eq_of_bits (k := 11) (b := 4) none

/-- The header of a reply to a client, made from the header of an answer. The bits are those
of QR, TC, RD, RA, AD and CD. -/
structure Mirrors (reply client answer : Header) (dnssecOk truncated : Bool) : Prop where
  id : reply.id = client.id
  response : reply.bit 15 = true
  opcode : reply.opcode = 0
  truncated : reply.bit 9 = truncated
  recursionDesired : reply.bit 8 = client.bit 8
  recursionAvailable : reply.bit 7 = true
  authentic : reply.bit 5 = (answer.bit 5 && (dnssecOk || client.bit 5))
  checkingDisabled : reply.bit 4 = client.bit 4
  rcode : reply.rcode = answer.rcode

end Header

namespace Answer

/-- Each bit of a reply's flags is that of the answer, set, or that of the client; AD may be
cleared. -/
theorem testBit_replyFlags (answer : UInt16) (query : Query) (dnssecOk : Bool) (i : Nat) :
    (replyFlags answer query dnssecOk).toNat.testBit i =
      ((answer.toNat.testBit i && Nat.testBit 0x84EF i || Nat.testBit 0x8080 i ||
        query.header.bit i && Nat.testBit 0x0110 i) &&
          (dnssecOk || query.header.bit 5 || Nat.testBit 0xFFDF i)) := by
  have keep : ~~~(Header.tc ||| Header.rd ||| Header.cd ||| Header.opcodeMask) = 0x84EF := rfl
  have fixed : Header.qr ||| Header.ra = 0x8080 := rfl
  have mirrored : Header.rd ||| Header.cd = 0x0110 := rfl
  have cleared : ~~~Header.ad = 0xFFDF := rfl
  have asks : (query.header.flags &&& Header.ad == 0) = !query.header.bit 5 := by
    rw [← @Header.flag_eq_bit query.header Header.ad 5 rfl, bne, Bool.not_not]
  rw [replyFlags, UInt16.or_assoc (answer &&& _), keep, fixed, mirrored, cleared, asks]
  cases dnssecOk <;> cases query.header.bit 5 <;>
    simp [UInt16.toNat_or, UInt16.toNat_and, Nat.testBit_or, Nat.testBit_and, Header.bit]

theorem mirrors_of_flags {reply a : Header} {query : Query} {dnssecOk truncated : Bool}
    (id : reply.id = query.header.id)
    (flags : reply.flags = if truncated then replyFlags a.flags query dnssecOk ||| Header.tc
      else replyFlags a.flags query dnssecOk) :
    reply.Mirrors query.header a dnssecOk truncated := by
  have bits (i : Nat) : reply.bit i =
      ((replyFlags a.flags query dnssecOk).toNat.testBit i ||
        truncated && Nat.testBit 0x0200 i) := by
    rw [Header.bit, flags]
    cases truncated
    · simp
    · simp [Header.tc]
  simp only [testBit_replyFlags] at bits
  have low {i : Nat} (hi : i < 4) : i = 0 ∨ i = 1 ∨ i = 2 ∨ i = 3 := by omega
  exact {
    id
    response := by rw [bits]; simp [Header.bit, Nat.testBit]
    opcode := Header.opcode_eq_zero_of_bits fun i hi => by
      obtain rfl | rfl | rfl | rfl := low hi <;> rw [bits] <;> simp [Header.bit, Nat.testBit]
    truncated := by rw [bits]; simp [Header.bit, Nat.testBit]
    recursionDesired := by rw [bits]; simp [Header.bit, Nat.testBit]
    recursionAvailable := by rw [bits]; simp [Header.bit, Nat.testBit]
    authentic := by rw [bits]; simp [Header.bit, Nat.testBit]
    checkingDisabled := by rw [bits]; simp [Header.bit, Nat.testBit]
    rcode := Header.rcode_eq_of_bits fun i hi => by
      obtain rfl | rfl | rfl | rfl := low hi <;> rw [bits] <;> simp [Header.bit, Nat.testBit] }

/-! ## Records for a client -/

/-- The client should see records of this type: OPT records belong to one exchange, and those
of a DNSSEC type go to clients that set DO or asked for that type. -/
def Wanted (dnssecOk : Bool) (qtype t : RecordType) : Prop :=
  t.code ≠ 41 ∧ (t.code ∈ [46, 47, 50] → dnssecOk = true ∨ t = qtype)

instance (dnssecOk : Bool) (qtype : RecordType) : DecidablePred (Wanted dnssecOk qtype) :=
  fun _ => inferInstanceAs (Decidable (_ ∧ (_ → _)))

variable {R W : Type} {codec : Codec R W}

/-- The sections `k` hold the records of `s` that the client should see, in order. A
minimized answer has no more than its answer section, if that is enough. -/
structure Keeps (codec : Codec R W) (limits : Limits) (qtype : RecordType) (rcode : UInt16)
    (s k : Sections R) : Prop where
  answers : k.answers = s.answers.filter (Wanted limits.dnssecOk qtype <| codec.rtype ·)
  minimal : limits.minimize = true → rcode = 0 → k.answers ≠ [] →
    k.authority = [] ∧ k.additional = []
  full : ¬ (limits.minimize = true ∧ rcode = 0 ∧ k.answers ≠ []) →
    k.authority = s.authority.filter (Wanted limits.dnssecOk qtype <| codec.rtype ·) ∧
      k.additional = s.additional.filter (Wanted limits.dnssecOk qtype <| codec.rtype ·)

variable {limits : Limits} {qtype : RecordType} {rcode : UInt16} {s k k' : Sections R} {r : R}

theorem keeps_iff :
    Sections.keeps codec limits qtype r = true ↔ Wanted limits.dnssecOk qtype (codec.rtype r) := by
  rw [Sections.keeps]
  generalize codec.rtype r = t
  obtain ⟨code⟩ := t
  have opt : (⟨code⟩ : RecordType) ≠ .opt ↔ code ≠ 41 := by simp [RecordType.opt]
  have dnssec : (⟨code⟩ : RecordType).isDnssec = true ↔ code ∈ [46, 47, 50] := by
    simp [RecordType.isDnssec, or_assoc]
  simp only [Wanted, Bool.and_eq_true, Bool.or_eq_true, decide_eq_true_eq, opt,
    Bool.not_eq_true', ← Bool.not_eq_true, dnssec]
  tauto

theorem filter_keeps (rs : List R) : rs.filter (Sections.keeps codec limits qtype) =
    rs.filter (Wanted limits.dnssecOk qtype <| codec.rtype ·) :=
  List.filter_congr fun _ _ => by rw [Bool.eq_iff_iff, keeps_iff, decide_eq_true_eq]

theorem keeps_kept (codec : Codec R W) (limits : Limits) (qtype : RecordType) (rcode : UInt16)
    (s : Sections R) : Keeps codec limits qtype rcode s (s.kept codec limits qtype rcode) := by
  have bare (as : List R) :
      (limits.minimize && decide (rcode = Rcode.noError.code) && !as.isEmpty) = true ↔
        limits.minimize = true ∧ rcode = 0 ∧ as ≠ [] := by
    rw [show Rcode.noError.code = 0 from rfl]
    simp [and_assoc]
  simp only [Sections.kept, filter_keeps]
  split
  · next h =>
    exact ⟨rfl, fun _ _ _ => ⟨rfl, rfl⟩, fun not => absurd ((bare _).mp h) not⟩
  · next h =>
    rw [bare] at h
    exact ⟨rfl, fun m e a => absurd ⟨m, e, a⟩ h, fun _ => ⟨rfl, rfl⟩⟩

theorem Keeps.mem_records (h : Keeps codec limits qtype rcode s k) (hr : r ∈ k.records) :
    r ∈ s.records ∧ Wanted limits.dnssecOk qtype (codec.rtype r) := by
  have split : (k.authority = [] ∧ k.additional = []) ∨
      k.authority = s.authority.filter (Wanted limits.dnssecOk qtype <| codec.rtype ·) ∧
        k.additional = s.additional.filter (Wanted limits.dnssecOk qtype <| codec.rtype ·) := by
    by_cases bare : limits.minimize = true ∧ rcode = 0 ∧ k.answers ≠ []
    · exact .inl (h.minimal bare.1 bare.2.1 bare.2.2)
    · exact .inr (h.full bare)
  simp only [Sections.records, List.mem_append] at hr ⊢
  obtain ⟨authority, additional⟩ | ⟨authority, additional⟩ := split <;>
    simp only [h.answers, authority, additional, List.mem_filter, decide_eq_true_eq,
      List.not_mem_nil, or_false] at hr
  · exact ⟨.inl (.inl hr.1), hr.2⟩
  · obtain (hr | hr) | hr := hr
    · exact ⟨.inl (.inl hr.1), hr.2⟩
    · exact ⟨.inl (.inr hr.1), hr.2⟩
    · exact ⟨.inr hr.1, hr.2⟩

theorem Keeps.unique (h : Keeps codec limits qtype rcode s k)
    (h' : Keeps codec limits qtype rcode s k') : k' = k := by
  have answers : k'.answers = k.answers := h'.answers.trans h.answers.symm
  have others : k'.authority = k.authority ∧ k'.additional = k.additional := by
    by_cases bare : limits.minimize = true ∧ rcode = 0 ∧ k.answers ≠ []
    · obtain ⟨none, none'⟩ := h.minimal bare.1 bare.2.1 bare.2.2
      obtain ⟨only, only'⟩ := h'.minimal bare.1 bare.2.1 (answers ▸ bare.2.2)
      exact ⟨only.trans none.symm, only'.trans none'.symm⟩
    · obtain ⟨all, all'⟩ := h.full bare
      obtain ⟨same, same'⟩ := h'.full (answers ▸ bare)
      exact ⟨same.trans all.symm, same'.trans all'.symm⟩
  cases k
  cases k'
  simp_all

/-! ## Messages -/

/-- The message opens with the header `h` and the question, goes on with what the codec writes
for the records of `s` behind them, and ends in `opt`; the header counts the records. -/
structure LaidOut (codec : Codec R W) (s : Sections R) (h : Header) (q : Question)
    (opt m : Bytes) : Prop where
  octets : ∃ w body w', opening codec q.wire = .ok w ∧ codec.Emits w s.records body w' ∧
    m = h.encode ++ q.wire ++ body ++ opt
  qdcount : h.qdcount = 1
  ancount : h.ancount.toNat = s.answers.length
  nscount : h.nscount.toNat = s.authority.length
  arcount : h.arcount.toNat = s.additional.length + if opt = [] then 0 else 1

variable {query : Query} {flags : UInt16} {opt m : Bytes} {n : Nat} {count : UInt16}

theorem sectionCount_eq_ok_iff : sectionCount n = .ok count ↔ count.toNat = n := by
  rw [sectionCount]
  constructor
  · intro h
    split at h
    · next few =>
      obtain rfl := Except.ok.inj h
      rw [UInt16.toNat_ofNat', Nat.mod_eq_of_lt few]
    · cases h
  · rintro rfl
    rw [if_pos count.toNat_lt, UInt16.ofNat_toNat]

theorem encode_eq_ok_iff : encode codec query flags s opt = .ok m ↔
    ∃ (laid : Bytes) (header : Header),
      lay codec query.question.wire s.records opt = .ok laid ∧
      header.id = query.header.id ∧ header.flags = flags ∧ header.qdcount = 1 ∧
      header.ancount.toNat = s.answers.length ∧ header.nscount.toNat = s.authority.length ∧
      header.arcount.toNat = s.additional.length + (if opt = [] then 0 else 1) ∧
      m = header.encode ++ laid.drop Header.size := by
  have last : (if opt.isEmpty then 0 else 1) = if opt = [] then 0 else 1 := by simp
  rw [← last]
  constructor
  · intro h
    obtain ⟨laid, hl, h⟩ := exists_of_bind h
    obtain ⟨ancount, ha, h⟩ := exists_of_bind h
    obtain ⟨nscount, hn, h⟩ := exists_of_bind h
    obtain ⟨arcount, hr, h⟩ := exists_of_bind h
    exact ⟨laid, ⟨query.header.id, flags, 1, ancount, nscount, arcount⟩,
      mapError_eq_ok_iff.mp hl, rfl, rfl, rfl, sectionCount_eq_ok_iff.mp ha,
      sectionCount_eq_ok_iff.mp hn, sectionCount_eq_ok_iff.mp hr, (Except.ok.inj h).symm⟩
  · rintro ⟨laid, ⟨id, _, _, ancount, nscount, arcount⟩, hl, rfl, rfl, rfl, ha, hn, hr, rfl⟩
    simp only [encode, mapError_eq_ok_iff.mpr hl, sectionCount_eq_ok_iff.mpr ha,
      sectionCount_eq_ok_iff.mpr hn, sectionCount_eq_ok_iff.mpr hr, bind, Except.bind]
    rfl

theorem laidOut_of_encode (lawful : codec.Lawful)
    (h : encode codec query flags s opt = .ok m) :
    ∃ header : Header, header.id = query.header.id ∧ header.flags = flags ∧
      LaidOut codec s header query.question opt m := by
  obtain ⟨laid, header, hl, id, flags, qd, an, ns, ar, rfl⟩ := encode_eq_ok_iff.mp h
  obtain ⟨w, body, w', opened, emits, rfl⟩ := exists_of_lay lawful hl
  refine ⟨header, id, flags, ⟨w, body, w', opened, emits, ?_⟩, qd, an, ns, ar⟩
  have length : blank.length = Header.size := List.length_replicate
  rw [List.append_assoc, List.append_assoc, ← length, List.drop_left, ← List.append_assoc,
    ← List.append_assoc, List.append_assoc]

theorem LaidOut.length_of_empty {h : Header} {q : Question}
    (laidOut : LaidOut codec .empty h q opt m) :
    m.length = Header.size + q.wire.length + opt.length := by
  obtain ⟨w, body, w', -, emits, rfl⟩ := laidOut.octets
  rw [emits.body_of_nil]
  simp [Nat.add_assoc]

/-! ## Choices -/

/-- What a reply holds of the records `full`: the first choice of sections that fits, or no
records and TC. -/
inductive Chosen (fits : Sections R → Prop) (full : Sections R) :
    Sections R → (truncated : Bool) → Prop
  | whole (h : fits full) : Chosen fits full full false
  | withoutAdditional (h : ¬ fits full) (less : fits { full with additional := [] }) :
      Chosen fits full { full with additional := [] } false
  | answersOnly (h : ¬ fits full) (less : ¬ fits { full with additional := [] })
      (least : fits ⟨full.answers, [], []⟩) : Chosen fits full ⟨full.answers, [], []⟩ false
  | nothing (h : ¬ fits full) (less : ¬ fits { full with additional := [] })
      (least : ¬ fits ⟨full.answers, [], []⟩) : Chosen fits full .empty true

variable {fits : Sections R → Prop} {full : Sections R} {truncated : Bool} {maxSize : Nat}
  {rest : List (Sections R)}

theorem Chosen.answers_eq (h : Chosen fits full s false) : s.answers = full.answers := by
  cases h <;> rfl

theorem Chosen.empty_of_truncated (h : Chosen fits full s true) : s = .empty := by
  cases h
  rfl

theorem Chosen.mem_records (h : Chosen fits full s truncated) (hr : r ∈ s.records) :
    r ∈ full.records := by
  simp only [Sections.records, List.mem_append] at hr ⊢
  cases h with
  | whole => exact hr
  | withoutAdditional => exact hr.imp_right (absurd · List.not_mem_nil)
  | answersOnly => exact .inl (.inl (by simpa using hr))
  | nothing => simp [Sections.empty] at hr

theorem encodeFitting_cons (h : encodeFitting codec query flags opt maxSize (s :: rest) = .ok m) :
    (encode codec query flags s opt = .ok m ∧ m.length ≤ maxSize) ∨
      (¬ ∃ m, encode codec query flags s opt = .ok m ∧ m.length ≤ maxSize) ∧
        encodeFitting codec query flags opt maxSize rest = .ok m := by
  rw [encodeFitting] at h
  obtain ⟨m', hm, h⟩ := exists_of_bind h
  split at h
  · next fits =>
    obtain rfl := Except.ok.inj h
    exact .inl ⟨hm, fits⟩
  · next long =>
    refine .inr ⟨?_, h⟩
    rintro ⟨_, hm', fits⟩
    obtain rfl := Except.ok.inj (hm.symm.trans hm')
    exact long fits

theorem chosen_of_encodeFitting
    (h : encodeFitting codec query flags opt maxSize full.layouts = .ok m) :
    ∃ s truncated,
      Chosen (fun s => ∃ m, encode codec query flags s opt = .ok m ∧ m.length ≤ maxSize)
        full s truncated ∧
      encode codec query (if truncated then flags ||| Header.tc else flags) s opt = .ok m ∧
      (truncated = false → m.length ≤ maxSize) := by
  obtain ⟨hm, fits⟩ | ⟨long, h⟩ := encodeFitting_cons h
  · exact ⟨full, false, .whole ⟨m, hm, fits⟩, hm, fun _ => fits⟩
  obtain ⟨hm, fits⟩ | ⟨long', h⟩ := encodeFitting_cons h
  · exact ⟨_, false, .withoutAdditional long ⟨m, hm, fits⟩, hm, fun _ => fits⟩
  obtain ⟨hm, fits⟩ | ⟨long'', h⟩ := encodeFitting_cons h
  · exact ⟨_, false, .answersOnly long long' ⟨m, hm, fits⟩, hm, fun _ => fits⟩
  · exact ⟨_, true, .nothing long long' long'', h, fun h => by simp at h⟩

end Answer

end ResolverGate
