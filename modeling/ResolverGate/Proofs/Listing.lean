import ResolverGate.Proofs.Admission
import ResolverGate.Proofs.BlocklistFile
import ResolverGate.Proofs.Octets
import ResolverGate.Proofs.Text.Order

/-! # Names that a blocklist file lists

A line spells a name as octets with dots between them; a message carries it as labels. The two
meet in the presentation form, in which most octets show as `?`. A listed name of octets that
show as they are is never forwarded.
-/

namespace ResolverGate

/-! ## Octets as characters -/

namespace Bytes

def char (b : UInt8) : Char := Char.ofNat b.toNat

def lower (b : UInt8) : UInt8 := if 65 ≤ b ∧ b ≤ 90 then b + 32 else b

theorem toLower_char (b : UInt8) : (char b).toLower = char (lower b) :=
  forall_octet (p := fun b => (char b).toLower = char (lower b)) (by decide +kernel) b

theorem isBlank_char {b : UInt8} (ascii : b < 128) (space : b ≠ 32)
    (control : ¬ (9 ≤ b ∧ b ≤ 13)) : Text.isBlank (char b) = false :=
  forall_octet
    (p := fun b => b < 128 → b ≠ 32 → ¬ (9 ≤ b ∧ b ≤ 13) → Text.isBlank (char b) = false)
    (by decide +kernel) b ascii space control

theorem char_eq_dot_iff (b : UInt8) : char b = '.' ↔ b = 46 :=
  forall_octet (p := fun b => char b = '.' ↔ b = 46) (by decide +kernel) b

/-- ASCII letters, digits, `-`, `_`, `*` and `?`: the octets that show as they are. -/
def IsReadable (b : UInt8) : Prop :=
  (char b).isAlphanum = true ∨ char b ∈ ['-', '_', '*', '?']

instance : DecidablePred IsReadable := fun _ => inferInstanceAs (Decidable (_ ∨ _))

theorem isReadable_lower (b : UInt8) : IsReadable (lower b) ↔ IsReadable b :=
  forall_octet (p := fun b => IsReadable (lower b) ↔ IsReadable b) (by decide +kernel) b

theorem IsReadable.lt {b : UInt8} (h : IsReadable b) : b < 128 :=
  forall_octet (p := fun b => IsReadable b → b < 128) (by decide +kernel) b h

theorem IsReadable.shownChar {b : UInt8} (h : IsReadable b) : Labels.shownChar b = char b :=
  forall_octet (p := fun b => IsReadable b → Labels.shownChar b = char b) (by decide +kernel) b h

theorem ofText_ofList {bs : Bytes} (ascii : ∀ b ∈ bs, b < 128) :
    ofText (String.ofList (bs.map char)) = bs := by
  have single (b : UInt8) : b < 128 → String.utf8EncodeChar (char b) = [b] :=
    forall_octet (p := fun b => b < 128 → String.utf8EncodeChar (char b) = [b])
      (by decide +kernel) b
  rw [ofText_eq, String.toList_ofList]
  induction bs with
  | nil => rfl
  | cons b bs ih =>
    rw [List.map_cons, List.flatMap_cons, single b (ascii b List.mem_cons_self),
      ih fun c hc => ascii c (List.mem_cons_of_mem _ hc)]
    rfl

theorem eq_ofList_of_ofText {s : String} {bs : Bytes} (ascii : ∀ b ∈ bs, b < 128)
    (h : ofText s = bs) : s = String.ofList (bs.map char) := by
  apply Option.some.inj
  rw [← toText?_eq_some_iff.mpr h.symm, toText?_eq_some_iff.mpr (ofText_ofList ascii).symm]

end Bytes

namespace Labels

variable {a b d w : Labels}

theorem encode_inj {rest tail : Bytes} (ha : a.Valid) (hb : b.Valid)
    (h : a.encode ++ 0 :: rest = b.encode ++ 0 :: tail) : a = b := by
  have first : read (a.wireLength + b.wireLength) (a.encode ++ 0 :: rest) = .ok (a, rest) :=
    read_eq_ok_iff.mpr ⟨ha, Nat.le_add_right _ _, rfl⟩
  have second : read (a.wireLength + b.wireLength) (a.encode ++ 0 :: rest) = .ok (b, tail) :=
    read_eq_ok_iff.mpr ⟨hb, Nat.le_add_left _ _, h⟩
  exact (Prod.mk.inj (Except.ok.inj (first.symm.trans second))).1

/-! ## Spellings -/

def dot : UInt8 := 46

def dotted (ls : Labels) : Bytes := ls.flatMap (· ++ [dot])

/-- A text spells labels as its octets, with dots between them and perhaps one behind. -/
def SpeltBy (d : Labels) (s : String) : Prop :=
  Bytes.ofText s = d.dotted ∨ Bytes.ofText s ++ [dot] = d.dotted

/-- The same octets but for the case of ASCII letters. -/
def Alike (a b : Labels) : Prop :=
  List.Forall₂ (List.Forall₂ fun x y => Bytes.lower x = Bytes.lower y) a b

def Readable (ls : Labels) : Prop := ∀ l ∈ ls, ∀ b ∈ l, Bytes.IsReadable b

theorem Alike.valid (h : a.Alike b) (hb : b.Valid) : a.Valid := by
  induction h with
  | nil => exact hb
  | cons same _ ih =>
    obtain ⟨size, hb⟩ := valid_cons.mp hb
    exact valid_cons.mpr ⟨same.length_eq ▸ size, ih hb⟩

theorem forall_mem_of_forall₂ {α β : Type} {r : α → β → Prop} {p : α → Prop} {q : β → Prop}
    {xs : List α} {ys : List β} (h : List.Forall₂ r xs ys) (step : ∀ x y, r x y → q y → p x)
    (hq : ∀ y ∈ ys, q y) : ∀ x ∈ xs, p x := by
  induction h with
  | nil => simp
  | cons related _ ih =>
    rw [List.forall_mem_cons] at hq ⊢
    exact ⟨step _ _ related hq.1, ih hq.2⟩

theorem Alike.readable (h : a.Alike b) (hb : b.Readable) : a.Readable := by
  refine forall_mem_of_forall₂ h (fun l l' same hl' => ?_) hb
  refine forall_mem_of_forall₂ same (fun x y eq hy => ?_) hl'
  rwa [← Bytes.isReadable_lower, eq, Bytes.isReadable_lower]

theorem Alike.dotted (h : a.Alike b) :
    List.Forall₂ (fun x y => Bytes.lower x = Bytes.lower y) a.dotted b.dotted :=
  List.rel_flatMap h fun _ _ same => List.rel_append same (.cons rfl .nil)

theorem mem_dotted {x : UInt8} (h : x ∈ d.dotted) : x = dot ∨ ∃ l ∈ d, x ∈ l := by
  obtain ⟨l, hl, hx⟩ := List.mem_flatMap.mp h
  rcases List.mem_append.mp hx with hx | hx
  · exact .inr ⟨l, hl, hx⟩
  · exact .inl (List.mem_singleton.mp hx)

theorem Readable.lt_of_mem_dotted (h : d.Readable) : ∀ x ∈ d.dotted, x < 128 := by
  intro x hx
  rcases mem_dotted hx with rfl | ⟨l, hl, hx⟩
  · decide
  · exact (h l hl x hx).lt

theorem exists_dotted_eq (named : d ≠ []) (valid : d.Valid) :
    ∃ front b, d.dotted = front ++ [b] ++ [dot] ∧ ∃ l ∈ d, b ∈ l := by
  obtain ⟨init, l, rfl⟩ := (List.eq_nil_or_concat' d).resolve_left named
  have last : l ∈ init ++ [l] := by simp
  obtain ⟨front, b, rfl⟩ := (List.eq_nil_or_concat' l).resolve_left
    (List.ne_nil_of_length_pos (valid l last).1)
  exact ⟨dotted init ++ front, b, by simp [dotted], _, last, by simp⟩

theorem toList_text (named : w ≠ []) (readable : w.Readable) :
    w.text.toList = w.dotted.map Bytes.char := by
  have shown : ∀ l ∈ w, l.map shownChar = l.map Bytes.char := fun l hl =>
    List.map_congr_left fun b hb => (readable l hl b hb).shownChar
  have text : w.text = String.ofList (w.flatMap fun l => l.map shownChar ++ ['.']) := by
    cases w with
    | nil => exact absurd rfl named
    | cons => rfl
  rw [text, String.toList_ofList, Labels.dotted, List.map_flatMap]
  exact List.flatMap_congr fun l hl => by rw [shown l hl, List.map_append]; rfl

theorem dotted_of_speltBy {s : String} (named : d ≠ []) (valid : d.Valid)
    (undotted : ∀ l ∈ d, dot ∉ l) (readable : d.Readable) (spelt : d.SpeltBy s) :
    Blocklist.dotted s = d.dotted.map Bytes.char := by
  have ascii := readable.lt_of_mem_dotted
  obtain ⟨front, b, octets, l, hl, hb⟩ := exists_dotted_eq named valid
  -- The final dot stands there, or the text ends in an octet of a label, which is none.
  rcases spelt with spelt | spelt
  · obtain rfl := Bytes.eq_ofList_of_ofText ascii spelt
    have final : Blocklist.isDotted (String.ofList (d.dotted.map Bytes.char)) = true := by
      rw [Blocklist.isDotted, String.toList_ofList, octets, List.map_append,
        List.getLast?_append]
      rfl
    rw [Blocklist.dotted, if_pos final, String.toList_ofList]
  · have short : Bytes.ofText s = front ++ [b] := List.append_cancel_right (spelt.trans octets)
    obtain rfl := Bytes.eq_ofList_of_ofText
      (fun x hx => ascii x (octets ▸ List.mem_append_left _ hx)) short
    have other : b ≠ dot := fun eq => undotted l hl (eq ▸ hb)
    have open_ended : ¬ Blocklist.isDotted (String.ofList ((front ++ [b]).map Bytes.char)) := by
      rw [Blocklist.isDotted, String.toList_ofList, List.map_append, List.getLast?_append]
      simpa using (Bytes.char_eq_dot_iff b).not.mpr other
    have final : Bytes.char dot = '.' := rfl
    rw [Blocklist.dotted, if_neg open_ended, String.toList_ofList, octets, ← final,
      ← List.map_singleton, ← List.map_append]

/-- A text that spells a readable name is found as the name's presentation form, whatever the
case of their letters. -/
theorem alike_text {s : String} (named : d ≠ []) (valid : d.Valid)
    (undotted : ∀ l ∈ d, dot ∉ l) (readable : d.Readable) (spelt : d.SpeltBy s)
    (alike : w.Alike d) : Blocklist.Alike s w.text := by
  have named' : w ≠ [] := fun eq => named (by cases alike with | nil => rfl | cons => cases eq)
  have text := toList_text named' (alike.readable readable)
  have final : Blocklist.isDotted w.text = true := by
    obtain ⟨front, b, octets, -⟩ := exists_dotted_eq named' (alike.valid valid)
    rw [Blocklist.isDotted, text, octets, List.map_append, List.getLast?_append]
    rfl
  rw [Blocklist.Alike, dotted_of_speltBy named valid undotted readable spelt, Blocklist.dotted,
    if_pos final, text, List.forall₂_map_left_iff, List.forall₂_map_right_iff]
  refine alike.dotted.flip.imp fun x y eq => ?_
  exact (Bytes.toLower_char x).trans
    ((congrArg Bytes.char eq.symm).trans (Bytes.toLower_char y).symm)

end Labels

/-! ## Listed names -/

namespace BlocklistFile

/-- Some line that is no comment spells the name: its labels hold 1 to 63 octets each, without
dots and white space. -/
structure Lists (s : String) (d : Labels) : Prop where
  named : d ≠ []
  valid : d.Valid
  undotted : ∀ l ∈ d, Labels.dot ∉ l
  solid : ∀ l ∈ d, ∀ b ∈ l, b ≠ 32 ∧ ¬ (9 ≤ b ∧ b ≤ 13)
  line : ∃ line ∈ lines s, line.head? ≠ some '#' ∧ d.SpeltBy (String.ofList line)

variable {s : String} {d w : Labels}

theorem Lists.exists_entry (h : Lists s d) (readable : d.Readable) :
    ∃ entry ∈ entries s, d.SpeltBy entry := by
  obtain ⟨line, mem, uncommented, spelt⟩ := h.line
  -- The octets are ASCII, so that they tell of each character that it is no blank.
  have characters := Labels.dotted_of_speltBy h.named h.valid h.undotted readable spelt
  have kept : line <+: d.dotted.map Bytes.char := by
    rw [← characters, Blocklist.dotted]
    split <;> simp
  refine ⟨_, mem_entries mem ⟨?_, uncommented, fun c hc => ?_⟩, spelt⟩
  · rintro rfl
    obtain ⟨front, b, octets, -⟩ := Labels.exists_dotted_eq h.named h.valid
    have length := congrArg List.length characters
    simp [octets, Blocklist.dotted, Blocklist.isDotted] at length
  · obtain ⟨b, hb, rfl⟩ := List.mem_map.mp (kept.subset hc)
    have visible : b ≠ 32 ∧ ¬ (9 ≤ b ∧ b ≤ 13) := by
      rcases Labels.mem_dotted hb with rfl | ⟨l, hl, hb⟩
      · decide
      · exact h.solid l hl b hb
    exact Bytes.isBlank_char (readable.lt_of_mem_dotted b hb) visible.1 visible.2

theorem Lists.contains (h : Lists s d) (readable : d.Readable) (alike : w.Alike d) :
    (ofText s).1.contains w.text = true := by
  obtain ⟨entry, mem, spelt⟩ := h.exists_entry readable
  exact contains_ofText.mpr ⟨entry, mem,
    Labels.alike_text h.named h.valid h.undotted readable spelt alike⟩

end BlocklistFile

/-! ## What is asked for -/

namespace Policy

variable {policy : Policy} {m tail : Bytes} {q : Query} {s : String} {d w : Labels}

/-- The name that is looked up is the presentation form of the labels on the wire. -/
theorem not_contains_of_forward (valid : w.Valid)
    (asks : m.drop Header.size = w.encode ++ 0 :: tail) (h : policy.judge m = .forward q) :
    policy.blocklist.contains w.text = false := by
  obtain ⟨⟨body, rest, hr, hq, -⟩, -, forwardable⟩ := judge_eq_forward_iff_read.mp h
  obtain rfl := Header.append_of_read? hr
  obtain ⟨ls, qtype, qclass, ls_valid, -, hquestion, octets⟩ := Question.read_eq_ok_iff.mp hq
  rw [List.drop_left' q.header.length_encode, octets, hquestion, Question.ofLabels,
    List.append_assoc, List.cons_append] at asks
  obtain rfl := Labels.encode_inj ls_valid valid asks
  have unblocked := forwardable.unblocked
  rwa [hquestion] at unblocked

/-- A message that asks for a listed name, in letters of any case, is never forwarded, if the
name's octets show as they are. -/
theorem judge_listed (listed : BlocklistFile.Lists s d) (readable : d.Readable)
    (alike : w.Alike d) (asks : m.drop Header.size = w.encode ++ 0 :: tail) (logBlocked : Bool)
    (q : Query) : judge ⟨(BlocklistFile.ofText s).1, logBlocked⟩ m ≠ .forward q := by
  intro h
  have missed := not_contains_of_forward (alike.valid listed.valid) asks h
  exact Bool.false_ne_true (missed.symm.trans (listed.contains readable alike))

/-- A listed name between a comment and another name, with blanks around it, and a question
for it in other letters. -/
theorem judge_listed_mixed_case :
    let s := "# ads\r\n\t Ads-1.Example_ \r\nother."
    let d : Labels := [[65, 100, 115, 45, 49], [69, 120, 97, 109, 112, 108, 101, 95]]
    let w : Labels := [[97, 68, 115, 45, 49], [69, 88, 97, 109, 112, 76, 101, 95]]
    let m : Bytes := [0, 7, 1, 0, 0, 1, 0, 0, 0, 0, 0, 0] ++ w.encode ++ [0, 0, 255, 0, 3]
    BlocklistFile.Lists s d ∧ d.Readable ∧ w.Alike d ∧
      ∀ q, judge ⟨(BlocklistFile.ofText s).1, true⟩ m ≠ .forward q := by
  intro s d w m
  have listed : BlocklistFile.Lists s d := by
    refine ⟨by simp [d], by simp [d, Labels.Valid], by decide, by decide +kernel,
      "Ads-1.Example_".toList, by decide +kernel, by decide, ?_⟩
    exact .inr (by decide +kernel)
  have readable : d.Readable := by
    unfold Labels.Readable
    decide +kernel
  have alike : w.Alike d := by
    unfold Labels.Alike
    decide +kernel
  have asks : m.drop Header.size = w.encode ++ 0 :: [0, 255, 0, 3] := by decide
  exact ⟨listed, readable, alike, judge_listed listed readable alike asks true⟩

/-- The rest of the octets show as `?`: a listed name that holds another is not found, and a
message that asks for it, octet for octet, is forwarded. -/
theorem judge_listed_rendered :
    let d : Labels := [[97, 33, 98], [101, 120, 97, 109, 112, 108, 101]]
    let m : Bytes := [18, 52, 1, 0, 0, 1, 0, 0, 0, 0, 0, 0] ++ d.encode ++ [0, 0, 1, 0, 1]
    BlocklistFile.Lists "a!b.example" d ∧ m.drop Header.size = d.encode ++ 0 :: [0, 1, 0, 1] ∧
      ∃ q, judge ⟨(BlocklistFile.ofText "a!b.example").1, true⟩ m = .forward q := by
  intro d m
  have listed : BlocklistFile.Lists "a!b.example" d := by
    refine ⟨by simp [d], by simp [d, Labels.Valid], by decide, by decide +kernel,
      "a!b.example".toList, by decide +kernel, by decide, ?_⟩
    exact .inr (by decide +kernel)
  refine ⟨listed, rfl, ⟨⟨0x1234, 0x0100, 1, 0, 0, 0⟩, .ofLabels d ⟨1⟩ ⟨1⟩, none⟩, ?_⟩
  refine judge_eq_forward_iff_read.mpr ⟨⟨d.encode ++ [0, 0, 1, 0, 1], [], rfl, ?_, rfl⟩, ?_, ?_⟩
  · exact Question.read_eq_ok_iff.mpr
      ⟨d, ⟨1⟩, ⟨1⟩, listed.valid, by decide, rfl, by decide +kernel⟩
  · exact Header.forwardable_iff.mpr (by decide)
  · have entries : BlocklistFile.entries "a!b.example" = ["a!b.example"] := by
      have single : BlocklistFile.lines "a!b.example" = ["a!b.example".toList] := by
        decide +kernel
      have entry : BlocklistFile.IsEntry "a!b.example".toList := by
        refine ⟨by decide, by decide, ?_⟩
        simp [Text.isBlank, Text.blankRanges]
      rw [BlocklistFile.entries, single, List.filter_singleton, decide_eq_true entry]
      rfl
    have other : ¬ Blocklist.Alike "a!b.example" d.text := by
      unfold Blocklist.Alike
      decide +kernel
    refine ⟨?_, by decide, by decide, by decide⟩
    rw [Bool.eq_false_iff, ne_eq, BlocklistFile.contains_ofText, entries]
    rintro ⟨entry, mem, alike⟩
    obtain rfl := List.mem_singleton.mp mem
    exact other alike

end Policy

end ResolverGate
