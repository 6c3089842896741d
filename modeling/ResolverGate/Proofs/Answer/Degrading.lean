import ResolverGate.Proofs.Answer.Reply

/-! # Answers too large for their client

Sections that do not fit a client's limit are left out, and at last all of them. The choice
begins with the fullest layout, though, which must be written before it can be found too
large: where it grows past the longest message there is, no reply is made.
-/

namespace ResolverGate

namespace Answer

variable {R W : Type} {codec : Codec R W} {size : R → Nat} {answer body message rest opt m : Bytes}
  {query : Query} {flags flags' : UInt16} {limits : Limits} {a : Header}
  {s t sections : Sections R} {maxSize : Nat} {layouts : List (Sections R)}

/-- A layout that leaves out sections from the back of another. -/
structure Sections.Less (t s : Sections R) : Prop where
  records : t.records <+: s.records
  answers : t.answers = s.answers ∨ t.answers = []
  authority : t.authority = s.authority ∨ t.authority = []
  additional : t.additional = s.additional ∨ t.additional = []

theorem Sections.less_of_layouts (h : t ∈ s.layouts) : t.Less s := by
  obtain rfl | rfl | rfl : t = s ∨ t = { s with additional := [] } ∨ t = ⟨s.answers, [], []⟩ := by
    simpa [Sections.layouts] using h
  · exact ⟨List.prefix_rfl, .inl rfl, .inl rfl, .inl rfl⟩
  · exact ⟨by simp [Sections.records], .inl rfl, .inl rfl, .inr rfl⟩
  · exact ⟨by simp [Sections.records], .inl rfl, .inr rfl, .inr rfl⟩

theorem Sections.empty_less (s : Sections R) : Sections.empty.Less s :=
  ⟨List.nil_prefix, .inr rfl, .inr rfl, .inr rfl⟩

theorem exists_encode_of_lay (laid : ∃ m, lay codec query.question.wire s.records opt = .ok m)
    (answers : s.answers.length < 0x10000) (authority : s.authority.length < 0x10000)
    (additional : s.additional.length + (if opt = [] then 0 else 1) < 0x10000) :
    ∃ m, encode codec query flags s opt = .ok m := by
  obtain ⟨m, laid⟩ := laid
  have counted {n : Nat} (few : n < 0x10000) : (UInt16.ofNat n).toNat = n := by
    rw [UInt16.toNat_ofNat', Nat.mod_eq_of_lt few]
  have written := encode_eq_ok_iff.mpr ⟨m,
    ⟨query.header.id, flags, 1, .ofNat _, .ofNat _, .ofNat _⟩, laid, rfl, rfl, rfl,
    counted answers, counted authority, counted additional, rfl⟩
  exact ⟨_, written⟩

theorem exists_encode_of_less (roomy : codec.Roomy size) (less : t.Less s)
    (h : ∃ m, encode codec query flags s opt = .ok m) :
    ∃ m, encode codec query flags' t opt = .ok m := by
  obtain ⟨m, h⟩ := h
  obtain ⟨laid, header, hl, -, -, -, answers, authority, additional, -⟩ := encode_eq_ok_iff.mp h
  have few {n n' : Nat} {count : UInt16} (counted : count.toNat = n) (same : n' = n ∨ n' = 0) :
      n' < 0x10000 := by
    have := count.toNat_lt
    omega
  refine exists_encode_of_lay (exists_lay_of_fewer roomy less.records hl) ?_ ?_ ?_
  · exact few answers (less.answers.imp (congrArg _) (congrArg _))
  · exact few authority (less.authority.imp (congrArg _) (congrArg _))
  · obtain same | none := less.additional
    · exact few additional (.inl (by rw [same]))
    · rw [none]
      split <;> simp

theorem exists_encode_of_room (roomy : codec.Roomy size)
    (room : Header.size + query.question.wire.length + (s.records.map size).sum + opt.length ≤
      Codec.maxLength) : ∃ m, encode codec query flags s opt = .ok m := by
  have few := roomy.length_le_sum s.records
  have last : (if opt = [] then 0 else 1) ≤ opt.length := by
    cases opt <;> simp
  have count : s.records.length =
      s.answers.length + s.authority.length + s.additional.length := by
    simp [Sections.records, Nat.add_assoc]
  have laid := exists_lay_of_room roomy room
  rw [Codec.maxLength, Header.size] at room
  exact exists_encode_of_lay laid (by omega) (by omega) (by omega)

theorem length_le_of_encode (roomy : codec.Roomy size)
    (h : encode codec query flags s opt = .ok m) : m.length ≤ Codec.maxLength := by
  obtain ⟨laid, header, hl, -, -, -, -, -, -, rfl⟩ := encode_eq_ok_iff.mp h
  obtain ⟨w, body, w', -, -, octets⟩ := exists_of_lay roomy.toLawful hl
  have longer : Header.size ≤ laid.length := by
    simp only [octets, List.length_append, blank, List.length_replicate]
    omega
  rw [List.length_append, List.length_drop, Header.length_encode, Nat.add_sub_cancel' longer]
  exact length_le_of_lay roomy hl

theorem encodeFitting_isOk
    (written : ∀ s ∈ layouts, ∃ m, encode codec query flags s opt = .ok m)
    (last : ∃ m, encode codec query (flags ||| Header.tc) .empty opt = .ok m) :
    ∃ m, encodeFitting codec query flags opt maxSize layouts = .ok m := by
  induction layouts with
  | nil => exact last
  | cons s layouts ih =>
    obtain ⟨m, hm⟩ := written s List.mem_cons_self
    obtain ⟨m', hm'⟩ := ih fun t ht => written t (List.mem_cons_of_mem _ ht)
    rw [encodeFitting, hm]
    by_cases fits : m.length ≤ maxSize
    · exact ⟨m, if_pos fits⟩
    · exact ⟨m', (if_neg fits).trans hm'⟩

/-- The layout of `s`, or what the codec says against it. -/
def written (codec : Codec R W) (a : Header) (query : Query) (limits : Limits) (s : Sections R) :
    Except EncodingError Bytes :=
  encode codec query (replyFlags a.flags query limits.dnssecOk) s (query.opt limits.dnssecOk)

/-- Where the fullest layout can be written, so can all others, and one fits or TC is set. -/
theorem exists_reply (roomy : codec.Roomy size) (ha : Header.read? answer = some (a, body))
    (hs : codec.sections answer = .ok sections)
    (made : ∃ m, written codec a query limits
      (sections.kept codec limits query.question.qtype a.rcode) = .ok m) :
    ∃ m, reply codec answer query limits = .ok m := by
  rw [reply_eq_encodeFitting ha hs]
  refine encodeFitting_isOk (fun s hs => ?_) ?_
  · exact exists_encode_of_less roomy (Sections.less_of_layouts hs) made
  · exact exists_encode_of_less roomy (Sections.empty_less _) made

/-- No other layout is tried if the fullest one cannot be written. -/
theorem reply_of_unwritten {e : EncodingError} (ha : Header.read? answer = some (a, body))
    (hs : codec.sections answer = .ok sections)
    (refused : written codec a query limits
      (sections.kept codec limits query.question.qtype a.rcode) = .error e) :
    reply codec answer query limits = .error e := by
  rw [written] at refused
  rw [reply_eq_encodeFitting ha hs, Sections.layouts, encodeFitting, refused]
  rfl

/-- Whatever an answer holds, it is cut down to what fits its client if the fullest choice of
its records can be written at all, which it can if 65535 octets have room for it with nothing
left out. If it cannot be written, no smaller choice is tried. -/
theorem reply_degrades (roomy : codec.Roomy size) (ha : Header.read? answer = some (a, body))
    (hs : codec.sections answer = .ok sections)
    (question : Question.ofMessage message = .ok (query.question, rest))
    (large : 512 ≤ limits.maxSize) :
    ∃ kept, Keeps codec limits query.question.qtype a.rcode sections kept ∧
      (∀ full, written codec a query limits kept = .ok full → ∃ m s truncated header,
        reply codec answer query limits = .ok m ∧
        Chosen (Fits codec a query limits) kept s truncated ∧
        LaidOut codec s header query.question (query.opt limits.dnssecOk) m ∧
        header.truncated = truncated ∧ m.length ≤ limits.maxSize.toNat) ∧
      (∀ e, written codec a query limits kept = .error e →
        reply codec answer query limits = .error e) ∧
      (12 + query.question.wire.length + (kept.records.map size).sum +
          (query.opt limits.dnssecOk).length ≤ 65535 →
        ∃ full, written codec a query limits kept = .ok full) := by
  have short : query.question.wire.length ≤ Question.maxWireLength :=
    Question.length_wire_of_read question
  have minimum : 512 ≤ limits.maxSize.toNat := UInt16.le_iff_toNat_le.mp large
  have keeps := keeps_kept codec limits query.question.qtype a.rcode sections
  refine ⟨_, keeps, fun full made => ?_, fun e => reply_of_unwritten ha hs,
    exists_encode_of_room roomy⟩
  obtain ⟨m, made⟩ := exists_reply roomy ha hs ⟨full, made⟩
  obtain ⟨kept, s, truncated, header, keeps', chosen, laidOut, mirrors, fits, -⟩ :=
    reply_laidOut roomy.toLawful ha hs made
  obtain rfl := keeps.unique keeps'
  have tc : header.truncated = truncated := header.truncated_eq_bit.trans mirrors.truncated
  refine ⟨m, s, truncated, header, made, chosen, laidOut, tc, ?_⟩
  cases truncated with
  | false => exact fits rfl
  | true =>
    obtain rfl := chosen.empty_of_truncated
    exact (laidOut.le_of_empty short (query.length_opt_le _)).trans minimum

theorem ofMessage_smallMessage :
    Question.ofMessage Query.smallMessage = .ok (Query.small.question, []) := by
  decide +kernel

/-! ## Records of one size -/

def Record.zeros (n : Nat) : Record := ⟨[], ⟨65000⟩, 1, 60, [.octets (List.replicate n 0)]⟩

def Sections.zeros (k n : Nat) : Sections Record := ⟨List.replicate k (.zeros n), [], []⟩

section Zeros

variable {n k pos stop : Nat} {p : Packet}

theorem Record.plain_zeros (some : 0 < n) (short : n < 65536) : (zeros n).Plain where
  owner := by simp [zeros, Labels.Valid]
  short := Nat.zero_lt_succ _
  fields _ := rfl
  rtype := by simp [zeros, RecordType.opt, RecordType.sig, RecordType.tsig, RecordType.any,
    RecordType.isZoneTransfer]
  rdata := ⟨List.replicate n 0, rfl, by simpa using some, by simpa using short⟩

theorem Sections.records_zeros : (zeros k n).records = List.replicate k (.zeros n) := by
  simp [records, zeros]

theorem Record.sum_size_zeros :
    ((List.replicate k (Record.zeros n)).map Record.size).sum = k * (n + 11) := by
  have one : (Record.zeros n).size = n + 11 := by
    simp [Record.size, Record.zeros, Piece.size, Nat.add_comm]
  rw [List.map_replicate, List.sum_replicate_nat, one]

theorem Sections.kept_zeros (limits : Limits) (qtype : RecordType) (rcode : UInt16) :
    (zeros k n).kept .standard limits qtype rcode = zeros k n := by
  have keeps : keeps .standard limits qtype (.zeros n) = true := by
    simp [Sections.keeps, Record.zeros, Codec.standard, RecordType.opt, RecordType.isDnssec]
  have all : (zeros k n).answers.filter (Sections.keeps .standard limits qtype) =
      (zeros k n).answers :=
    List.filter_eq_self.mpr fun r hr => List.eq_of_mem_replicate hr ▸ keeps
  simp only [kept, all]
  split <;> rfl

theorem exists_answer_zeros {h : Header} (some : 0 < n) (short : n < 65536)
    (room : Header.size + k * (n + 11) ≤ Codec.maxLength) (counted : h.ancount.toNat = k)
    (unasked : h.qdcount = 0) (unreferred : h.nscount = 0) (alone : h.arcount = 0) :
    ∃ body : Bytes, (h.encode ++ body).length ≤ Header.size + k * (n + 11) ∧
      Codec.standard.sections (h.encode ++ body) = .ok (.zeros k n) := by
  rw [← Record.sum_size_zeros] at room ⊢
  exact exists_answer (fun r hr => List.eq_of_mem_replicate hr ▸ Record.plain_zeros some short) room
    (by rw [counted, List.length_replicate]) unasked unreferred alone

theorem Row.le_stop_zeros (h : Row (Record.Stands p) (List.replicate k (.zeros n)) pos stop) :
    pos + k * (n + 11) ≤ stop := by
  induction k generalizing pos with
  | zero => rw [h.eq_of_nil]; omega
  | succ k ih =>
    rw [List.replicate_succ] at h
    cases h with
    | cons first rest =>
      obtain ⟨owner, -, rdata⟩ := first
      have := owner.lt_stop
      have := ih rest
      rw [Record.zeros] at rdata
      cases rdata with
      | cons data none =>
        have ends := data.2
        have := none.eq_of_nil
        rw [List.length_replicate] at ends
        rw [Nat.succ_mul]
        omega

theorem LaidOut.le_length_zeros {h : Header} {q : Question}
    (laidOut : LaidOut .standard (.zeros k n) h q opt m) (some : 0 < n) (short : n < 65536) :
    Header.size + q.wire.length + k * (n + 11) ≤ m.length := by
  have row := laidOut.stands fun r hr => by
    rw [Sections.records_zeros] at hr
    exact List.eq_of_mem_replicate hr ▸ (Record.plain_zeros some short).valid
  rw [Sections.records_zeros] at row
  have := row.le_stop_zeros
  omega

end Zeros

/-- A record of 611 octets is too large for a client that takes 512, which is told TC. -/
theorem reply_degrades_record : ∃ (answer body m : Bytes) (a header : Header),
    Header.read? answer = some (a, body) ∧ Codec.standard.sections answer = .ok (.zeros 1 600) ∧
      Question.ofMessage Query.smallMessage = .ok (Query.small.question, []) ∧
      reply .standard answer .small ⟨512, false, true⟩ = .ok m ∧ m.length ≤ 512 ∧
      LaidOut .standard .empty header Query.small.question [] m ∧ header.truncated = true := by
  let a : Header := ⟨7, 0x8180, 0, 1, 0, 0⟩
  obtain ⟨body, -, hs⟩ := exists_answer_zeros (h := a) (k := 1) (n := 600) (by decide) (by decide)
    (by decide) rfl rfl rfl rfl
  have ha : Header.read? (a.encode ++ body) = some (a, body) := a.read?_encode body
  have asked : Question.ofMessage Query.smallMessage = .ok (Query.small.question, []) :=
    ofMessage_smallMessage
  have large : 512 ≤ (⟨512, false, true⟩ : Limits).maxSize := by decide
  obtain ⟨kept, keeps, made, -, room⟩ := reply_degrades roomy_standard ha hs asked large
  have same := (keeps_kept _ _ _ _ _).unique keeps
  rw [Sections.kept_zeros] at same
  subst same
  obtain ⟨full, hfull⟩ := room (by rw [Sections.records_zeros, Record.sum_size_zeros]; decide)
  obtain ⟨m, s, truncated, header, made, chosen, laidOut, tc, short⟩ := made full hfull
  cases truncated with
  | true =>
    obtain rfl := chosen.empty_of_truncated
    exact ⟨_, body, m, a, header, ha, hs, asked, made, short, laidOut, tc⟩
  | false =>
    -- Every layout but the last holds the record, which takes more than 512 octets.
    have held : s = .zeros 1 600 := by cases chosen <;> rfl
    subst held
    have long := laidOut.le_length_zeros (by decide) (by decide)
    have limit : m.length ≤ 512 := short
    omega

/-- Two records of 32761 octets make an answer, but no reply with a question in front of them.
Each of them alone could be written. -/
theorem reply_overlong : ∃ (answer body message rest : Bytes) (a : Header)
    (sections : Sections Record) (query : Query) (e : EncodingError),
      Codec.standard.Roomy Record.size ∧ answer.length ≤ 65535 ∧
      Header.read? answer = some (a, body) ∧ Codec.standard.sections answer = .ok sections ∧
      Question.ofMessage message = .ok (query.question, rest) ∧
      (∀ r ∈ sections.records,
        ∃ m, written .standard a query ⟨512, false, true⟩ ⟨[r], [], []⟩ = .ok m) ∧
      reply .standard answer query ⟨512, false, true⟩ = .error e := by
  let a : Header := ⟨7, 0x8180, 0, 2, 0, 0⟩
  obtain ⟨body, short, hs⟩ := exists_answer_zeros (h := a) (k := 2) (n := 32750) (by decide)
    (by decide) (by decide) rfl rfl rfl rfl
  have ha : Header.read? (a.encode ++ body) = some (a, body) := a.read?_encode body
  have asked : Question.ofMessage Query.smallMessage = .ok (Query.small.question, []) :=
    ofMessage_smallMessage
  have alone : ∀ r ∈ (Sections.zeros 2 32750).records,
      ∃ m, written .standard a .small ⟨512, false, true⟩ ⟨[r], [], []⟩ = .ok m := by
    intro r hr
    rw [Sections.records_zeros] at hr
    obtain rfl := List.eq_of_mem_replicate hr
    refine exists_encode_of_room (s := .zeros 1 32750) roomy_standard ?_
    rw [Sections.records_zeros, Record.sum_size_zeros]
    decide
  cases made : written .standard a .small ⟨512, false, true⟩ (.zeros 2 32750) with
  | error e =>
    refine ⟨_, body, _, [], a, _, .small, e, roomy_standard, Nat.le_trans short (by decide), ha, hs,
      asked, alone, reply_of_unwritten ha hs ?_⟩
    rwa [Sections.kept_zeros]
  | ok m =>
    have short := length_le_of_encode roomy_standard made
    obtain ⟨header, -, -, laidOut⟩ := laidOut_of_encode lawful_standard made
    have long := laidOut.le_length_zeros (by decide) (by decide)
    have front : Header.size + Query.small.question.wire.length = 19 := rfl
    rw [Codec.maxLength] at short
    omega

end Answer

end ResolverGate
