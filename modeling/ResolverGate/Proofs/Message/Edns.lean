import ResolverGate.Proofs.Message.Grammar
import ResolverGate.Proofs.Octets

/-! # The search for the OPT record

The questions and records behind the first question are walked in order. What is found is
settled by the OPT records among the additional ones; the walk breaks off where the next
question or record does not fit, and it looks at nothing outside of the message.
-/

namespace ResolverGate

/-! ## Rows of questions and records -/

theorem walk_eq_none_iff {walk : Nat → Bytes → Option Bytes} (zero : ∀ m, walk 0 m = some m)
    (add : ∀ k n m, walk (k + n) m = (walk k m).bind (walk n)) {n : Nat} {m : Bytes} :
    walk n m = none ↔ ∃ k rest, k < n ∧ walk k m = some rest ∧ walk 1 rest = none := by
  constructor
  · intro h
    induction n with
    | zero =>
      rw [zero] at h
      cases h
    | succ n ih =>
      cases front : walk n m with
      | none =>
        obtain ⟨k, rest, fewer, walked, stuck⟩ := ih front
        exact ⟨k, rest, Nat.lt_succ_of_lt fewer, walked, stuck⟩
      | some rest =>
        rw [add, front] at h
        exact ⟨n, rest, Nat.lt_succ_self n, front, h⟩
  · rintro ⟨k, rest, fewer, walked, stuck⟩
    obtain ⟨j, rfl⟩ : ∃ j, n = k + (1 + j) := ⟨n - k - 1, by omega⟩
    rw [add, walked, Option.bind_some, add, stuck, Option.bind_none]

namespace Question

variable {m : Bytes} {n : Nat}

def Misfits (m : Bytes) : Prop := ∀ q rest, EncodedQuestion q → m ≠ q ++ rest

theorem skip?_add (k n : Nat) (m : Bytes) : skip? (k + n) m = (skip? k m).bind (skip? n) := by
  fun_induction skip? k m with
  | case1 m => rw [Nat.zero_add, Option.bind_some]
  | case2 k m failed => rw [Nat.succ_add, skip?, failed, Option.bind_none]
  | case3 k m name after named fixed rest split ih =>
    rw [Nat.succ_add, skip?, named]
    simp only [split, ih]
  | case4 k m name after named short =>
    rw [Nat.succ_add, skip?, named, Option.bind_none]
    simp only [short]

theorem skip?_one_eq_none_iff : skip? 1 m = none ↔ Misfits m := by
  rw [Option.eq_none_iff_forall_ne_some]
  constructor
  · intro none q rest encoded octets
    have single : ∀ q' ∈ [q], EncodedQuestion q' := fun q' hq => List.mem_singleton.mp hq ▸ encoded
    exact none rest (skip?_eq_some_iff.mpr ⟨[q], rfl, single, by simpa using octets⟩)
  · intro misfits rest found
    obtain ⟨qs, single, encoded, octets⟩ := skip?_eq_some_iff.mp found
    obtain ⟨q, rfl⟩ := List.length_eq_one_iff.mp single
    exact misfits q rest (encoded q List.mem_cons_self) (by simpa using octets)

theorem skip?_eq_none_iff : skip? n m = none ↔ ∃ (qs : List Bytes) (rest : Bytes),
    qs.length < n ∧ (∀ q ∈ qs, EncodedQuestion q) ∧ m = qs.flatten ++ rest ∧ Misfits rest := by
  rw [walk_eq_none_iff (fun _ => rfl) skip?_add]
  constructor
  · rintro ⟨k, rest, fewer, walked, stuck⟩
    obtain ⟨qs, rfl, encoded, octets⟩ := skip?_eq_some_iff.mp walked
    exact ⟨qs, rest, fewer, encoded, octets, skip?_one_eq_none_iff.mp stuck⟩
  · rintro ⟨qs, rest, fewer, encoded, octets, misfits⟩
    exact ⟨qs.length, rest, fewer, skip?_eq_some_iff.mpr ⟨qs, rfl, encoded, octets⟩,
      skip?_one_eq_none_iff.mpr misfits⟩

end Question

namespace RecordSpan

variable {m : Bytes} {n : Nat}

def Misfits (m : Bytes) : Prop := ∀ (r : RecordSpan) rest, r.WellFormed → m ≠ r.encode ++ rest

theorem read?_eq_none_iff : read? m = none ↔ Misfits m := by
  rw [Option.eq_none_iff_forall_ne_some]
  constructor
  · intro none r rest wellFormed octets
    exact none (r, rest) (read?_eq_some_iff.mpr ⟨wellFormed, octets⟩)
  · rintro misfits ⟨r, rest⟩ found
    obtain ⟨wellFormed, octets⟩ := read?_eq_some_iff.mp found
    exact misfits r rest wellFormed octets

theorem skip?_add (k n : Nat) (m : Bytes) : skip? (k + n) m = (skip? k m).bind (skip? n) := by
  fun_induction skip? k m with
  | case1 m => rw [Nat.zero_add, Option.bind_some]
  | case2 k m r rest found ih =>
    rw [Nat.succ_add, skip?, found]
    exact ih
  | case3 k m failed => rw [Nat.succ_add, skip?, failed, Option.bind_none]

theorem skip?_one_eq_none_iff : skip? 1 m = none ↔ Misfits m := by
  rw [← read?_eq_none_iff, skip?]
  cases read? m with
  | none => simp
  | some read => simp [skip?]

theorem skip?_eq_none_iff : skip? n m = none ↔ ∃ rs rest,
    rs.length < n ∧ Stand rs rs.length m rest ∧ Misfits rest := by
  rw [walk_eq_none_iff (fun _ => rfl) skip?_add]
  constructor
  · rintro ⟨k, rest, fewer, walked, stuck⟩
    obtain ⟨rs, stand⟩ := skip?_eq_some_iff.mp walked
    obtain rfl := stand.count
    exact ⟨rs, rest, fewer, stand, skip?_one_eq_none_iff.mp stuck⟩
  · rintro ⟨rs, rest, fewer, stand, misfits⟩
    exact ⟨rs.length, rest, fewer, skip?_eq_some_iff.mpr ⟨rs, stand⟩,
      skip?_one_eq_none_iff.mpr misfits⟩

end RecordSpan

/-! ## Where the walk breaks off -/

namespace Edns

variable {m rest : Bytes} {r : RecordSpan} {n : Nat} {h : Header}

theorem read_of_passed {questions : List Bytes} {records : List RecordSpan}
    (questions_length : questions.length = h.qdcount.toNat - 1)
    (questions_encoded : ∀ q ∈ questions, EncodedQuestion q)
    (records_length : records.length = h.ancount.toNat + h.nscount.toNat)
    (records_wellFormed : ∀ r ∈ records, r.WellFormed)
    (octets : m = questions.flatten ++ (records.flatMap RecordSpan.encode ++ rest)) :
    read h m = search h.arcount.toNat none rest := by
  have asked := Question.skip?_eq_some_iff.mpr ⟨_, questions_length, questions_encoded, octets⟩
  have passed : RecordSpan.skip? (h.ancount.toNat + h.nscount.toNat)
      (records.flatMap RecordSpan.encode ++ rest) = some rest :=
    RecordSpan.skip?_eq_some_iff.mpr ⟨_, records_length, records_wellFormed, rfl⟩
  rw [read, asked]
  simp only
  rw [passed]

/-- A message whose records can be walked is settled by the OPT records among the additional
ones. -/
theorem read_of_follow {questions : List Bytes} {records additional : List RecordSpan}
    (follow : Follow h questions records additional m rest) :
    read h m = weigh none (optRecords additional) := by
  have stand : RecordSpan.Stand additional h.arcount.toNat
      (additional.flatMap RecordSpan.encode ++ rest) rest :=
    ⟨follow.additional_length, follow.additional_wellFormed, rfl⟩
  rw [read_of_passed follow.questions_length follow.questions_encoded follow.records_length
    follow.records_wellFormed follow.octets, search_of_stand stand]

/-- Some questions and records stand in front, as far as they have been walked over. -/
structure Walked (questions : List Bytes) (records additional : List RecordSpan)
    (m rest : Bytes) : Prop where
  questions_encoded : ∀ q ∈ questions, EncodedQuestion q
  records_wellFormed : ∀ r ∈ records, r.WellFormed
  additional_wellFormed : ∀ r ∈ additional, r.WellFormed
  octets : m = questions.flatten ++ (records.flatMap RecordSpan.encode ++
    (additional.flatMap RecordSpan.encode ++ rest))

/-- The walk comes to a question or a record that does not fit, and has found nothing wrong with
the OPT records before it. -/
inductive Breaks (h : Header) (m : Bytes) : Prop
  | question {questions : List Bytes} {rest : Bytes} (walked : Walked questions [] [] m rest)
      (more : questions.length < h.qdcount.toNat - 1) (misfits : Question.Misfits rest)
  | record {questions : List Bytes} {records : List RecordSpan} {rest : Bytes}
      (walked : Walked questions records [] m rest)
      (questions_length : questions.length = h.qdcount.toNat - 1)
      (more : records.length < h.ancount.toNat + h.nscount.toNat)
      (misfits : RecordSpan.Misfits rest)
  | additional {questions : List Bytes} {records additional : List RecordSpan} {rest : Bytes}
      {edns : Option Edns} (walked : Walked questions records additional m rest)
      (questions_length : questions.length = h.qdcount.toNat - 1)
      (records_length : records.length = h.ancount.toNat + h.nscount.toNat)
      (more : additional.length < h.arcount.toNat)
      (unobjected : Announced (optRecords additional) edns) (misfits : RecordSpan.Misfits rest)

theorem search_eq_malformed_iff : search n none m = .error .malformed ↔
    ∃ rs rest edns, rs.length < n ∧ RecordSpan.Stand rs rs.length m rest ∧
      Announced (optRecords rs) edns ∧ RecordSpan.Misfits rest := by
  constructor
  · intro malformed
    -- Where all records can be walked nothing is malformed. Otherwise those in front of the one
    -- that does not fit are searched first, and an objection to them would have been reported.
    cases walk : RecordSpan.skip? n m with
    | some rest =>
      obtain ⟨rs, stand⟩ := RecordSpan.skip?_eq_some_iff.mp walk
      rw [search_of_stand stand] at malformed
      exact absurd malformed weigh_ne_malformed
    | none =>
      obtain ⟨rs, rest, fewer, stand, misfits⟩ := RecordSpan.skip?_eq_none_iff.mp walk
      obtain ⟨j, rfl⟩ := Nat.exists_eq_add_of_lt fewer
      rw [Nat.add_assoc, search_add stand] at malformed
      have verdict := verdict_optRecords stand.wellFormed
      cases weighed : weigh none (optRecords rs) with
      | ok edns =>
        rw [weighed] at verdict
        exact ⟨rs, rest, edns, fewer, stand, verdict.announced_of_ok, misfits⟩
      | error e =>
        rw [weighed] at malformed
        exact absurd (weighed.trans malformed) weigh_ne_malformed
  · rintro ⟨rs, rest, edns, fewer, stand, unobjected, misfits⟩
    obtain ⟨j, rfl⟩ := Nat.exists_eq_add_of_lt fewer
    rw [Nat.add_assoc, search_add stand, weigh_of_announced unobjected]
    refine (search.eq_def _ _ _).trans ?_
    simp only [RecordSpan.read?_eq_none_iff.mpr misfits]

theorem read_eq_malformed_iff : read h m = .error .malformed ↔ Breaks h m := by
  constructor
  · intro malformed
    -- The three walks in their order: the first that fails names its part of the message.
    unfold read at malformed
    split at malformed
    · next stuck =>
      obtain ⟨qs, rest, more, encoded, rfl, misfits⟩ := Question.skip?_eq_none_iff.mp stuck
      exact .question ⟨encoded, by simp, by simp, rfl⟩ more misfits
    next m₁ asked =>
    obtain ⟨qs, questions, encoded, rfl⟩ := Question.skip?_eq_some_iff.mp asked
    split at malformed
    · next stuck =>
      obtain ⟨rs, rest, more, stand, misfits⟩ := RecordSpan.skip?_eq_none_iff.mp stuck
      exact .record ⟨encoded, stand.wellFormed, by simp, by rw [stand.octets]; rfl⟩ questions more
        misfits
    next m₂ walked =>
    obtain ⟨rs, records⟩ := RecordSpan.skip?_eq_some_iff.mp walked
    obtain ⟨opts, rest, edns, more, stand, unobjected, misfits⟩ :=
      search_eq_malformed_iff.mp malformed
    refine .additional ⟨encoded, records.wellFormed, stand.wellFormed, ?_⟩ questions records.count
      more unobjected misfits
    rw [records.octets, stand.octets]
  · intro breaks
    cases breaks with
    | @question questions rest walked more misfits =>
      have stuck := Question.skip?_eq_none_iff.mpr
        ⟨questions, rest, more, walked.questions_encoded, walked.octets, misfits⟩
      rw [read, stuck]
    | @record questions records rest walked questions_length more misfits =>
      have asked := Question.skip?_eq_some_iff.mpr
        ⟨questions, questions_length, walked.questions_encoded, walked.octets⟩
      have stuck : RecordSpan.skip? (h.ancount.toNat + h.nscount.toNat)
          (records.flatMap RecordSpan.encode ++ ([].flatMap RecordSpan.encode ++ rest)) = none :=
        RecordSpan.skip?_eq_none_iff.mpr
          ⟨records, rest, more, ⟨rfl, walked.records_wellFormed, rfl⟩, misfits⟩
      rw [read, asked]
      simp only
      rw [stuck]
    | @additional questions records additional rest edns walked questions_length records_length
        more unobjected misfits =>
      rw [read_of_passed questions_length walked.questions_encoded records_length
        walked.records_wellFormed walked.octets]
      exact search_eq_malformed_iff.mpr ⟨additional, rest, edns, more,
        ⟨rfl, walked.additional_wellFormed, rfl⟩, unobjected, misfits⟩

/-! ## Reading by position

Where an octet outside of the message would be fetched there is no result at all. What is left
to read is a suffix of the message, and the position is where it begins.
-/

def fetchName (m : Bytes) (pos : Nat) : Option (Option Nat) :=
  if pos < m.length then do
    let len ← m[pos]?
    if len = 0 then return some (pos + 1)
    else if len.toNat < 64 then
      if pos + 1 + len.toNat ≤ m.length then fetchName m (pos + 1 + len.toNat) else return none
    else if 192 ≤ len.toNat ∧ pos + 1 < m.length then return some (pos + 2)
    else return none
  else return none
termination_by m.length - pos

theorem splitName?_label {len : UInt8} (nonzero : len ≠ 0) (short : len.toNat < 64) (m : Bytes) :
    splitName? (len :: m) = (Bytes.splitAt? len.toNat m).bind fun (label, rest) =>
      (splitName? rest).map fun (name, rest) => (len :: label ++ name, rest) := by
  rw [splitName?.eq_def]
  simp only
  rw [if_neg nonzero, if_pos short]
  split
  · next cut => rw [cut, Option.bind_none]
  · next label rest cut =>
    rw [cut, Option.bind_some]
    cases splitName? rest <;> rfl

theorem fetchName_eq (m : Bytes) (pos : Nat) :
    fetchName m pos = some ((splitName? (m.drop pos)).map fun (_, rest) => m.start rest) := by
  induction left : m.length - pos using Nat.strongRecOn generalizing pos with
  | ind left ih =>
    rw [fetchName]
    by_cases inside : pos < m.length
    · obtain ⟨len, at_pos, behind⟩ := Bytes.exists_drop_eq_cons inside
      rw [if_pos inside, at_pos, behind]
      simp only [Option.bind_eq_bind, Option.bind_some]
      split
      · next zero =>
        rw [zero, splitName?.eq_def]
        simp only [reduceIte, Option.map_some]
        rw [Bytes.start_drop inside]
        rfl
      next nonzero =>
      split
      · next short =>
        rw [splitName?_label nonzero short, Bytes.splitAt?_drop inside]
        split
        · next whole =>
          rw [ih _ (by omega) _ rfl, Option.bind_some, Option.map_map]
          rfl
        · rfl
      next long =>
      rw [splitName?.eq_def]
      simp only
      rw [if_neg nonzero, if_neg long]
      by_cases pointer : 192 ≤ len.toNat
      · rw [if_pos pointer]
        by_cases paired : pos + 1 < m.length
        · obtain ⟨low, -, behind⟩ := Bytes.exists_drop_eq_cons paired
          rw [if_pos ⟨pointer, paired⟩, behind]
          simp only [Option.map_some]
          rw [Bytes.start_drop paired]
          rfl
        · rw [if_neg fun h => paired h.2, List.drop_of_length_le (Nat.le_of_not_lt paired)]
          rfl
      · rw [if_neg fun h => pointer h.1, if_neg pointer]
        rfl
    · rw [if_neg inside, List.drop_of_length_le (Nat.le_of_not_lt inside), splitName?.eq_def]
      rfl

/-- What the search sees of a record. -/
structure Sighting where
  ownerLength : Nat
  rtype : RecordType
  /-- What the record would announce as an OPT record. -/
  announces : Edns
  /-- Where the record ends. -/
  stop : Nat

def fetchRecord (m : Bytes) (pos : Nat) : Option (Option Sighting) := do
  match ← fetchName m pos with
  | none => return none
  | some stop =>
    if stop + 10 ≤ m.length then
      match ← m.fetch? stop 10 with
      | [t₁, t₀, s₁, s₀, _, version, d₁, _, l₁, l₀] =>
        let next := stop + 10 + (UInt16.ofNat (Bytes.toNumber [l₁, l₀])).toNat
        if next ≤ m.length then
          return some ⟨stop - pos, ⟨UInt16.ofNat (Bytes.toNumber [t₁, t₀])⟩,
            ⟨UInt16.ofNat (Bytes.toNumber [s₁, s₀]), version, decide (128 ≤ d₁.toNat)⟩, next⟩
        else return none
      | _ => none
    else return none

def sighting (m : Bytes) (r : RecordSpan) (rest : Bytes) : Sighting :=
  ⟨r.owner.length, r.rtype, ofRecord r, m.start rest⟩

theorem read?_eq_none_of_short {owner after : Bytes}
    (name : splitName? m = some (owner, after)) (short : after.length < 10) :
    RecordSpan.read? m = none := by
  rw [Option.eq_none_iff_forall_ne_some]
  rintro ⟨r, rest⟩ found
  obtain ⟨wellFormed, octets⟩ := RecordSpan.read?_eq_some_iff.mp found
  rw [RecordSpan.encode, List.append_assoc] at octets
  rw [splitName?_eq_some_iff.mpr ⟨wellFormed.owner, octets⟩] at name
  obtain ⟨-, rfl⟩ := Prod.mk.inj (Option.some.inj name)
  simp only [List.length_append, Bytes.length_of16, Bytes.length_of32] at short
  omega

theorem fetchRecord_eq (behind : rest <:+ m) : fetchRecord m (m.start rest) =
    some ((RecordSpan.read? rest).map fun (r, rest) => sighting m r rest) := by
  rw [fetchRecord, fetchName_eq, Bytes.drop_start behind]
  cases name : splitName? rest with
  | none =>
    rw [RecordSpan.read?, name]
    rfl
  | some cut =>
  obtain ⟨owner, after⟩ := cut
  obtain ⟨-, rfl⟩ := splitName?_eq_some_iff.mp name
  have suffix : after <:+ m := (List.suffix_append owner after).trans behind
  have from_owner := Bytes.start_add_length behind
  rw [List.length_append] at from_owner
  have at_stop := Bytes.drop_start suffix
  have room := Bytes.start_add_length suffix
  simp only [Option.map_some, Option.bind_eq_bind, Option.bind_some]
  generalize m.start after = stop at at_stop room ⊢
  by_cases whole : stop + 10 ≤ m.length
  · have ten : 10 ≤ after.length := by omega
    obtain ⟨t₁, t₀, s₁, s₀, rcode, version, d₁, d₀, l₁, l₀, data, rfl⟩ :=
      Bytes.exists_of_ten_le ten
    have at_data : m.drop (stop + 10) = data := by
      rw [← List.drop_drop, at_stop]
      rfl
    have cut := Bytes.splitAt?_drop (n := (UInt16.ofNat (Bytes.toNumber [l₁, l₀])).toNat) whole
    rw [at_data] at cut
    rw [if_pos whole, Bytes.fetch?_of_le whole, at_stop, RecordSpan.read?, name]
    simp only [Option.bind_eq_bind, Option.bind_some, List.take_succ_cons, List.take_zero,
      Bytes.read16?, Bytes.read32?]
    rw [cut]
    split
    · next fits =>
      rw [Option.bind_some]
      simp only [pure, Option.map_some, sighting]
      rw [ofRecord_eq (Bytes.of32_toNumber rcode version d₁ d₀), Bytes.start_drop fits]
      congr 3
      omega
    · rfl
  · rw [if_neg whole, read?_eq_none_of_short name (by omega)]
    rfl

theorem suffix_of_read? (behind : rest <:+ m) {after : Bytes}
    (found : RecordSpan.read? rest = some (r, after)) : after <:+ m := by
  obtain ⟨-, rfl⟩ := RecordSpan.read?_eq_some_iff.mp found
  exact (List.suffix_append _ _).trans behind

def skipQuestions (m : Bytes) : Nat → Nat → Option (Option Nat)
  | 0, pos => some (some pos)
  | n + 1, pos => do
    match ← fetchName m pos with
    | some stop => if stop + 4 ≤ m.length then skipQuestions m n (stop + 4) else return none
    | none => return none

def skipRecords (m : Bytes) : Nat → Nat → Option (Option Nat)
  | 0, pos => some (some pos)
  | n + 1, pos => do
    match ← fetchRecord m pos with
    | some r => skipRecords m n r.stop
    | none => return none

def searchFrom (m : Bytes) : Nat → Option Edns → Nat → Option (Except EdnsError (Option Edns))
  | 0, found, _ => some (.ok found)
  | n + 1, found, pos => do
    match ← fetchRecord m pos with
    | none => return .error .malformed
    | some r =>
      if r.rtype = .opt then
        if found.isSome then return .error .duplicateOpt
        else if r.ownerLength ≠ 1 then return .error .nonRootOpt
        else searchFrom m n (some r.announces) r.stop
      else searchFrom m n found r.stop

/-- The client's parameters, from what follows `pos` in a message with header `h`. Where an
octet outside of the message would be fetched there is no result. -/
def fetch (h : Header) (m : Bytes) (pos : Nat) : Option (Except EdnsError (Option Edns)) := do
  match ← skipQuestions m (h.qdcount.toNat - 1) pos with
  | none => return .error .malformed
  | some pos =>
    match ← skipRecords m (h.ancount.toNat + h.nscount.toNat) pos with
    | none => return .error .malformed
    | some pos => searchFrom m h.arcount.toNat none pos

theorem skipQuestions_eq (n : Nat) (behind : rest <:+ m) :
    skipQuestions m n (m.start rest) = some ((Question.skip? n rest).map m.start) := by
  induction n generalizing rest with
  | zero => rfl
  | succ n ih =>
    rw [skipQuestions, fetchName_eq, Bytes.drop_start behind, Question.skip?]
    cases name : splitName? rest with
    | none => rfl
    | some cut =>
    obtain ⟨owner, after⟩ := cut
    obtain ⟨-, rfl⟩ := splitName?_eq_some_iff.mp name
    have suffix : after <:+ m := (List.suffix_append owner after).trans behind
    have cut := Bytes.splitAt?_drop (n := 4) (Bytes.start_le m after)
    rw [Bytes.drop_start suffix] at cut
    simp only [Option.map_some, Option.bind_eq_bind, Option.bind_some, cut]
    split
    · next fits =>
      simp only
      rw [← ih (List.drop_suffix _ _), Bytes.start_drop fits]
    · rfl

theorem skipRecords_eq (n : Nat) (behind : rest <:+ m) :
    skipRecords m n (m.start rest) = some ((RecordSpan.skip? n rest).map m.start) := by
  induction n generalizing rest with
  | zero => rfl
  | succ n ih =>
    rw [skipRecords, fetchRecord_eq behind, RecordSpan.skip?]
    cases read : RecordSpan.read? rest with
    | none => rfl
    | some found => exact ih (suffix_of_read? behind read)

theorem searchFrom_eq (n : Nat) (found : Option Edns) (behind : rest <:+ m) :
    searchFrom m n found (m.start rest) = some (search n found rest) := by
  induction n generalizing found rest with
  | zero => rfl
  | succ n ih =>
    rw [searchFrom, fetchRecord_eq behind, search]
    cases read : RecordSpan.read? rest with
    | none => rfl
    | some record =>
    obtain ⟨r, after⟩ := record
    have suffix := suffix_of_read? behind read
    simp only [Option.map_some, Option.bind_eq_bind, Option.bind_some, sighting]
    split
    · split
      · rfl
      split
      · rfl
      exact ih _ suffix
    · exact ih found suffix

theorem fetch_eq (h : Header) {pos : Nat} (inside : pos ≤ m.length) :
    fetch h m pos = some (read h (m.drop pos)) := by
  have behind : m.drop pos <:+ m := List.drop_suffix pos m
  have asked := skipQuestions_eq (h.qdcount.toNat - 1) behind
  rw [Bytes.start_drop inside] at asked
  rw [fetch, asked, read]
  cases skipped : Question.skip? (h.qdcount.toNat - 1) (m.drop pos) with
  | none => rfl
  | some after =>
  obtain ⟨_, -, -, octets⟩ := Question.skip?_eq_some_iff.mp skipped
  have suffix : after <:+ m := List.IsSuffix.trans ⟨_, octets.symm⟩ behind
  simp only [Option.map_some, Option.bind_eq_bind, Option.bind_some]
  rw [skipRecords_eq _ suffix]
  cases passed : RecordSpan.skip? (h.ancount.toNat + h.nscount.toNat) after with
  | none => rfl
  | some rest =>
  obtain ⟨_, stand⟩ := RecordSpan.skip?_eq_some_iff.mp passed
  exact searchFrom_eq _ none (List.IsSuffix.trans ⟨_, stand.octets.symm⟩ suffix)

/-- Where everything behind the first question can be walked, the OPT records among the
additional ones settle what is read; those among the answers and the authority records make no
difference. The walk breaks off as malformed just where a question or a record does not fit
before an OPT record is objected to. It comes to an end at every position of every message, and
fetches no octet outside of it. -/
theorem read_settles (h : Header) (m : Bytes) (pos : Nat) (inside : pos ≤ m.length) :
    (∀ questions answers authority additional rest,
      answers.length = h.ancount.toNat → authority.length = h.nscount.toNat →
      Follow h questions (answers ++ authority) additional (m.drop pos) rest →
      Verdict (optRecords additional) (read h (m.drop pos))) ∧
    (read h (m.drop pos) = .error .malformed ↔ Breaks h (m.drop pos)) ∧
    fetch h m pos = some (read h (m.drop pos)) := by
  refine ⟨?_, read_eq_malformed_iff, fetch_eq h inside⟩
  intro questions answers authority additional rest _ _ follow
  rw [read_of_follow follow]
  exact verdict_optRecords follow.additional_wellFormed

/-- An OPT record behind another that stands among the answers, and an octet that no count
covers. -/
theorem read_settles_behind_answer :
    let h : Header := ⟨7, 0x0100, 1, 1, 0, 1⟩
    let answer : RecordSpan := ⟨[192, 12], .opt, 512, 0, []⟩
    let opt : RecordSpan := ⟨[0], .opt, 1232, doBit, []⟩
    let m : Bytes := h.encode ++ [1, 97, 0, 0, 1, 0, 1] ++ answer.encode ++ opt.encode ++ [9]
    19 ≤ m.length ∧ Verdict [opt] (read h (m.drop 19)) ∧
      fetch h m 19 = some (.ok (some ⟨1232, 0, true⟩)) := by
  intro h answer opt m
  have inside : 19 ≤ m.length := by decide
  have follow : Follow h [] ([answer] ++ []) [opt] (m.drop 19) [9] := by
    refine ⟨rfl, nofun, rfl, ?_, rfl, ?_, rfl⟩
    · intro r hr
      obtain rfl := List.mem_singleton.mp hr
      exact ⟨.pointer 12 (by decide), by decide⟩
    · intro r hr
      obtain rfl := List.mem_singleton.mp hr
      exact ⟨.root, by decide⟩
  have found : read h (m.drop 19) = .ok (some ⟨1232, 0, true⟩) := by decide +kernel
  obtain ⟨settled, -, fetched⟩ := read_settles h m 19 inside
  exact ⟨inside, settled [] [answer] [] [opt] [9] rfl rfl follow, fetched.trans (by rw [found])⟩

end Edns

end ResolverGate
