import Mathlib.Data.List.Forall2
import ResolverGate.Proofs.Octets
import ResolverGate.Proofs.Replies

/-! # The first question

A message is read as a question just when one is spelled behind its header. What follows a
question, or a name that cannot be read, makes no difference, and nothing outside of the
message is looked at.
-/

namespace ResolverGate

namespace Bytes

theorem splitAt?_append_of_some {n : Nat} {m front rest : Bytes} (tail : Bytes)
    (h : splitAt? n m = some (front, rest)) :
    splitAt? n (m ++ tail) = some (front, rest ++ tail) := by
  obtain ⟨rfl, length⟩ := splitAt?_eq_some_iff.mp h
  exact splitAt?_eq_some_iff.mpr ⟨List.append_assoc _ _ _, length⟩

end Bytes

/-! ## Presentation -/

namespace Labels

def IsShown (b : UInt8) : Prop :=
  (65 ≤ b ∧ b ≤ 90) ∨ (97 ≤ b ∧ b ≤ 122) ∨ (48 ≤ b ∧ b ≤ 57) ∨ b = 45 ∨ b = 95 ∨ b = 42

instance : DecidablePred IsShown := fun _ => inferInstanceAs (Decidable (_ ∨ _))

inductive Shows : UInt8 → Char → Prop
  | plain {b : UInt8} (h : IsShown b) : Shows b (Char.ofNat b.toNat)
  | masked {b : UInt8} (h : ¬ IsShown b) : Shows b '?'

/-- The presentation form of some labels: each is followed by a dot, and the root is a dot. -/
inductive Presents : Labels → String → Prop
  | root : Presents [] "."
  | labels {ls : Labels} {shown : List (List Char)} (named : ls ≠ [])
      (h : List.Forall₂ (List.Forall₂ Shows) ls shown) :
      Presents ls (String.ofList (shown.flatMap (· ++ ['.'])))

variable {ls : Labels} {s : String} {b : UInt8} {c : Char} {m tail : Bytes} {room pos : Nat}

theorem shows_iff : Shows b c ↔ c = shownChar b := by
  have shown : shownChar b = if IsShown b then Char.ofNat b.toNat else '?' :=
    Bytes.forall_octet (p := fun b => shownChar b = if IsShown b then Char.ofNat b.toNat else '?')
      (by decide +kernel) b
  constructor
  · intro h
    cases h with
    | plain h => rw [shown, if_pos h]
    | masked h => rw [shown, if_neg h]
  · rintro rfl
    rw [shown]
    split
    · next h => exact .plain h
    · next h => exact .masked h

theorem toNat_shownChar_lt (b : UInt8) : (shownChar b).toNat < 128 :=
  Bytes.forall_octet (p := fun b => (shownChar b).toNat < 128) (by decide +kernel) b

theorem forall₂_iff_eq_map {α β : Type} {r : α → β → Prop} {f : α → β}
    (h : ∀ a b, r a b ↔ b = f a) {as : List α} {bs : List β} :
    List.Forall₂ r as bs ↔ bs = as.map f := by
  constructor
  · intro related
    induction related with
    | nil => rfl
    | cons first _ ih => rw [(h _ _).mp first, ih, List.map_cons]
  · rintro rfl
    induction as with
    | nil => exact .nil
    | cons a as ih => exact .cons ((h _ _).mpr rfl) ih

theorem text_cons (l : Bytes) (ls : Labels) :
    text (l :: ls) = String.ofList ((l :: ls).flatMap fun l => l.map shownChar ++ ['.']) := rfl

theorem presents_iff : Presents ls s ↔ s = ls.text := by
  have shown {shown : List (List Char)} :
      List.Forall₂ (List.Forall₂ Shows) ls shown ↔ shown = ls.map (·.map shownChar) :=
    forall₂_iff_eq_map (f := List.map shownChar) fun _ _ =>
      forall₂_iff_eq_map (f := shownChar) fun _ _ => shows_iff
  constructor
  · rintro (_ | ⟨named, h⟩)
    · rfl
    · rw [shown.mp h, List.flatMap_map, text]
      exact named
  · rintro rfl
    cases ls with
    | nil => exact .root
    | cons l ls =>
      have h := Presents.labels (List.cons_ne_nil l ls) (shown.mpr rfl)
      rwa [List.flatMap_map] at h

theorem length_text_le (ls : Labels) : ls.text.length ≤ max 1 ls.wireLength := by
  cases ls with
  | nil => decide
  | cons l ls =>
    have size (ls : Labels) :
        (ls.flatMap fun l => l.map shownChar ++ ['.']).length = ls.wireLength := by
      induction ls with
      | nil => rfl
      | cons l ls ih => simp [ih, Nat.add_assoc, Nat.add_comm 1]
    rw [text_cons, String.length_ofList, size]
    exact Nat.le_max_right _ _

theorem toNat_lt_of_mem_text (h : c ∈ ls.text.toList) : c.toNat < 128 := by
  cases ls with
  | nil =>
    obtain rfl : c = '.' := by simpa [text] using h
    decide
  | cons l ls =>
    rw [text_cons, String.toList_ofList] at h
    obtain ⟨l', -, h⟩ := List.mem_flatMap.mp h
    rcases List.mem_append.mp h with h | h
    · obtain ⟨b, -, rfl⟩ := List.mem_map.mp h
      exact toNat_shownChar_lt b
    · obtain rfl := List.mem_singleton.mp h
      decide

/-! ## Names that cannot be read -/

/-- What is wrong with a name is seen before what follows it. -/
theorem read_append_of_invalidName (h : read room m = .error .invalidName) :
    read room (m ++ tail) = .error .invalidName := by
  fun_induction read room m with
  | case1 => cases h
  | case2 => cases h
  | case3 room len rest nonzero long =>
    rw [List.cons_append, read, if_neg nonzero, if_pos long]
  | case4 => cases h
  | case5 => cases h
  | case6 room len rest nonzero short label after split fits e others ih =>
    rw [List.cons_append, read, if_neg nonzero, if_neg short,
      Bytes.splitAt?_append_of_some tail split]
    simp only
    rw [dif_pos fits, ih (by rw [others]; exact h)]
  | case7 room len rest nonzero short label after split excess =>
    rw [List.cons_append, read, if_neg nonzero, if_neg short,
      Bytes.splitAt?_append_of_some tail split]
    simp only
    rw [dif_neg excess]

/-! ## Reading by position -/

/-- The labels at `pos` and where they end, fetched from `m`. Where an octet outside of `m`
would be fetched there is no result. -/
def fetch (m : Bytes) (room pos : Nat) : Option (Except QuestionError (Labels × Nat)) :=
  if pos < m.length then do
    let len ← m[pos]?
    if len = 0 then return .ok ([], pos + 1)
    else if 64 ≤ len.toNat then return .error .invalidName
    else if pos + 1 + len.toNat ≤ m.length then
      let label ← m.fetch? (pos + 1) len.toNat
      if _fits : len.toNat + 1 ≤ room then
        let others ← fetch m (room - (len.toNat + 1)) (pos + 1 + len.toNat)
        return others.map fun (ls, stop) => (label :: ls, stop)
      else return .error .invalidName
    else return .error .truncated
  else return .error .truncated
termination_by room

theorem fetch_eq (m : Bytes) (room pos : Nat) :
    fetch m room pos =
      some ((read room (m.drop pos)).map fun (ls, rest) => (ls, m.start rest)) := by
  induction room using Nat.strongRecOn generalizing pos with
  | ind room ih =>
    rw [fetch]
    by_cases inside : pos < m.length
    · obtain ⟨len, at_pos, behind⟩ := Bytes.exists_drop_eq_cons inside
      rw [if_pos inside, at_pos, behind, read]
      simp only [Option.bind_eq_bind, Option.bind_some]
      split
      · rw [Except.map, Bytes.start_drop inside]
        rfl
      split
      · rfl
      rw [Bytes.splitAt?_drop inside]
      split
      · next whole =>
        rw [Bytes.fetch?_of_le whole]
        simp only [Option.bind_some]
        split
        · next fits =>
          rw [ih _ (by omega)]
          cases read (room - (len.toNat + 1)) (m.drop (pos + 1 + len.toNat)) <;> rfl
        · rfl
      · rfl
    · rw [if_neg inside, List.drop_of_length_le (Nat.le_of_not_lt inside), read]
      rfl

end Labels

namespace Question

variable {m rest tail : Bytes} {q : Question} {ls : Labels}

/-- The octets `m` spell the question for the labels, and `rest` follows it: each label behind
its length, the root octet, the type and the class. -/
structure Spelt (q : Question) (ls : Labels) (m rest : Bytes) : Prop where
  valid : ls.Valid
  short : ls.wireLength + 1 ≤ Labels.maxWireLength
  octets : m = ls.encode ++ 0 :: (Bytes.of16 q.qtype.code ++ Bytes.of16 q.qclass.code) ++ rest
  wire : m = q.wire ++ rest
  name : ls.Presents q.name

theorem exists_spelt_iff : (∃ ls, q.Spelt ls m rest) ↔ read m = .ok (q, rest) := by
  rw [read_eq_ok_iff]
  constructor
  · rintro ⟨ls, valid, short, octets, wire, name⟩
    refine ⟨ls, q.qtype, q.qclass, valid, short, ?_, wire⟩
    have named : q.name = ls.text := Labels.presents_iff.mp name
    have spelt : q.wire = (ofLabels ls q.qtype q.qclass).wire :=
      List.append_cancel_right (wire.symm.trans octets)
    calc
      q = ⟨q.name, q.qtype, q.qclass, q.wire⟩ := rfl
      _ = ofLabels ls q.qtype q.qclass := by rw [named, spelt]; rfl
  · rintro ⟨ls, qtype, qclass, valid, short, rfl, wire⟩
    exact ⟨ls, valid, short, wire, wire, Labels.presents_iff.mpr rfl⟩

theorem read_append (h : read m = .ok (q, rest)) : read (m ++ tail) = .ok (q, rest ++ tail) := by
  obtain ⟨ls, qtype, qclass, valid, short, asks, rfl⟩ := read_eq_ok_iff.mp h
  exact read_eq_ok_iff.mpr ⟨ls, qtype, qclass, valid, short, asks, List.append_assoc _ _ _⟩

theorem read_append_of_invalidName (h : read m = .error .invalidName) :
    read (m ++ tail) = .error .invalidName := by
  have name : Labels.read (Labels.maxWireLength - 1) m = .error .invalidName := by
    unfold read at h
    split at h
    · next e failed => rw [failed, Except.error.inj h]
    · split at h <;> cases h
  rw [read, Labels.read_append_of_invalidName name]

/-- The question behind the header and where it ends, fetched from `m`. Where an octet outside
of `m` would be fetched there is no result. -/
def fetch (m : Bytes) : Option (Except QuestionError (Question × Nat)) := do
  match ← Labels.fetch m (Labels.maxWireLength - 1) Header.size with
  | .error e => return .error e
  | .ok (ls, stop) =>
    if stop + 4 ≤ m.length then
      let fixed ← m.fetch? stop 4
      let wire ← m.fetch? Header.size (stop + 4 - Header.size)
      return .ok ({ name := ls.text
                    qtype := ⟨UInt16.ofNat (Bytes.toNumber (fixed.take 2))⟩
                    qclass := ⟨UInt16.ofNat (Bytes.toNumber (fixed.drop 2))⟩
                    wire := wire }, stop + 4)
    else return .error .truncated

theorem fetch_eq (m : Bytes) : fetch m = some ((ofMessage m).map fun (q, _) => (q, q.ending)) := by
  rw [fetch, Labels.fetch_eq, ofMessage, read]
  cases hr : Labels.read (Labels.maxWireLength - 1) (m.drop Header.size) with
  | error e => rfl
  | ok read =>
  obtain ⟨ls, after⟩ := read
  obtain ⟨-, -, octets⟩ := Labels.read_eq_ok_iff.mp hr
  have behind : after <:+ m := by
    refine List.IsSuffix.trans ⟨ls.encode ++ [0], ?_⟩ (List.drop_suffix Header.size m)
    rw [octets, List.append_assoc]
    rfl
  have cut := Bytes.splitAt?_drop (n := 4) (Bytes.start_le m after)
  rw [Bytes.drop_start behind] at cut
  simp only [Except.map, Option.bind_eq_bind, Option.bind_some, cut]
  split
  · next whole =>
    have room := Bytes.start_add_length behind
    have four : 4 ≤ after.length := by omega
    obtain ⟨t₁, t₀, c₁, c₀, rest, rfl⟩ := Bytes.exists_of_four_le four
    let wire := ls.encode ++ [0, t₁, t₀, c₁, c₀]
    have split : m.drop Header.size = wire ++ rest := by
      rw [octets]
      simp [wire]
    have stop : m.start (t₁ :: t₀ :: c₁ :: c₀ :: rest) + 4 = Header.size + wire.length := by
      have sizes := congrArg List.length split
      have positive : 0 < wire.length := by simp [wire]
      simp only [List.length_append, List.length_cons, List.length_drop] at sizes room
      omega
    rw [Bytes.fetch?_of_le whole, Bytes.drop_start behind, stop, Nat.add_sub_cancel_left,
      Bytes.fetch?_of_le (stop ▸ whole), split, List.take_left]
    rfl
  · rfl

/-! ## What is read of a message -/

theorem size_le_of_ofMessage (h : ofMessage m = .ok (q, rest)) : Header.size ≤ m.length := by
  have octets := append_of_read h
  obtain ⟨ls, qtype, qclass, -, -, rfl, -⟩ := read_eq_ok_iff.mp h
  have sizes := congrArg List.length octets
  simp only [ofLabels, List.length_drop, List.length_append, List.length_cons] at sizes
  omega

theorem append_of_ofMessage (h : ofMessage m = .ok (q, rest)) :
    m = m.take Header.size ++ q.wire ++ rest := by
  rw [List.append_assoc, ← append_of_read h, List.take_append_drop]

theorem ending_eq (h : ofMessage m = .ok (q, rest)) :
    q.ending = (m.take Header.size ++ q.wire).length := by
  rw [ending, List.length_append, List.length_take, Nat.min_eq_left (size_le_of_ofMessage h)]

theorem drop_ending (h : ofMessage m = .ok (q, rest)) : m.drop q.ending = rest := by
  rw [ending_eq h]
  exact (congrArg (List.drop _) (append_of_ofMessage h)).trans (List.drop_left' rfl)

theorem take_ending (h : ofMessage m = .ok (q, rest)) :
    m.take q.ending = m.take Header.size ++ q.wire := by
  rw [ending_eq h]
  exact (congrArg (List.take _) (append_of_ofMessage h)).trans (List.take_left' rfl)

theorem ending_le (h : ofMessage m = .ok (q, rest)) : q.ending ≤ m.length := by
  have length := congrArg List.length (append_of_ofMessage h)
  rw [List.length_append, ← ending_eq h] at length
  omega

theorem ofMessage_append (h : ofMessage m = .ok (q, rest)) :
    ofMessage (m ++ tail) = .ok (q, rest ++ tail) := by
  rw [ofMessage, List.drop_append_of_le_length (size_le_of_ofMessage h)]
  exact read_append h

theorem ofMessage_append_of_invalidName (h : ofMessage m = .error .invalidName) :
    ofMessage (m ++ tail) = .error .invalidName := by
  rcases Nat.lt_or_ge m.length Header.size with short | whole
  · rw [ofMessage, List.drop_of_length_le (Nat.le_of_lt short), read, Labels.read] at h
    cases h
  · rw [ofMessage, List.drop_append_of_le_length whole]
    exact read_append_of_invalidName h

theorem ofMessage_encode {h : Header} (valid : ls.Valid)
    (short : ls.wireLength + 1 ≤ Labels.maxWireLength) (qtype : RecordType)
    (qclass : RecordClass) :
    ofMessage (h.encode ++ (ofLabels ls qtype qclass).wire ++ tail) =
      .ok (ofLabels ls qtype qclass, tail) := by
  rw [ofMessage, List.append_assoc, List.drop_left' h.length_encode]
  exact read_eq_ok_iff.mpr ⟨ls, qtype, qclass, valid, short, rfl, rfl⟩

/-- A question is read just when one is spelled behind the header. It ends inside the message,
at most 259 octets behind the header, and its name shows as at most 254 ASCII characters. Any
labels within the limits are read so, whatever stands around them. Neither a question nor a
name that cannot be read changes with octets behind the message, and no octet outside of the
message is fetched. -/
theorem reads_exactly (m : Bytes) :
    (∀ q rest, ofMessage m = .ok (q, rest) ↔ ∃ ls, q.Spelt ls (m.drop Header.size) rest) ∧
    (∀ q rest, ofMessage m = .ok (q, rest) → q.ending ≤ m.length ∧ rest = m.drop q.ending ∧
      q.wire = (m.take q.ending).drop Header.size ∧ q.wire.length ≤ 259 ∧
      q.name.length ≤ 254 ∧ ∀ c ∈ q.name.toList, c.toNat < 128) ∧
    (∀ (h : Header) (ls : Labels) (qtype : RecordType) (qclass : RecordClass) (tail : Bytes),
      ls.Valid → ls.wireLength + 1 ≤ 255 →
      ofMessage (h.encode ++ (ofLabels ls qtype qclass).wire ++ tail) =
        .ok (ofLabels ls qtype qclass, tail)) ∧
    (∀ tail, (∀ q rest, ofMessage m = .ok (q, rest) →
        ofMessage (m ++ tail) = .ok (q, rest ++ tail)) ∧
      (ofMessage m = .error .invalidName → ofMessage (m ++ tail) = .error .invalidName)) ∧
    fetch m = some ((ofMessage m).map fun (q, _) => (q, q.ending)) := by
  refine ⟨fun q rest => exists_spelt_iff.symm, fun q rest read => ?_, ?_, fun tail => ⟨?_, ?_⟩,
    fetch_eq m⟩
  · obtain ⟨ls, qtype, qclass, -, short, asked, -⟩ := read_eq_ok_iff.mp read
    have name : q.name = ls.text := congrArg Question.name asked
    have length := name ▸ ls.length_text_le
    rw [Labels.maxWireLength] at short
    refine ⟨ending_le read, (drop_ending read).symm, ?_, length_wire_of_read read, by omega, ?_⟩
    · rw [take_ending read, List.drop_left' (List.length_take_of_le (size_le_of_ofMessage read))]
    · intro c hc
      exact Labels.toNat_lt_of_mem_text (name ▸ hc)
  · intro h ls qtype qclass tail valid short
    exact ofMessage_encode valid short qtype qclass
  · intro q rest read
    exact ofMessage_append read
  · intro invalid
    exact ofMessage_append_of_invalidName invalid

end Question

end ResolverGate
