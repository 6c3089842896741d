import Mathlib.Data.Nat.Digits.Defs
import ResolverGate.Proofs.Text.Lines
import ResolverGate.Text.Decimal

/-! # Tokens

A text falls into words, with blanks between any two of them, in one way only. A word of
decimal digits is read as the number that it writes.
-/

namespace ResolverGate

namespace Text

variable {cs gap rest word : List Char} {ws : List (List Char)} {c : Char} {n bound : Nat}

/-! ## Words -/

/-- The text is these words, with blanks between any two of them and perhaps around them. -/
inductive Spaced : List (List Char) → List Char → Prop
  | blank {gap : List Char} (h : ∀ c ∈ gap, isBlank c = true) : Spaced [] gap
  | word {gap word rest : List Char} {ws : List (List Char)} (h : ∀ c ∈ gap, isBlank c = true)
      (nonempty : word ≠ []) (solid : ∀ c ∈ word, isBlank c = false)
      (parted : ∀ c ∈ rest.head?, isBlank c = true) (spaced : Spaced ws rest) :
      Spaced (word :: ws) (gap ++ (word ++ rest))

theorem words_nil : words [] = [] := rfl

theorem words_append_cons (blank : isBlank c = true) (front back : List Char) :
    words (front ++ c :: back) = words front ++ words back := by
  simp only [words, splitOn_eq_splitOnP]
  rw [List.splitOnP_append_cons front back blank, List.filter_append]

theorem words_append_blank (blank : ∀ c ∈ gap, isBlank c = true) (cs : List Char) :
    words (gap ++ cs) = words cs := by
  induction gap with
  | nil => rfl
  | cons c gap ih =>
    rw [List.forall_mem_cons] at blank
    have start := words_append_cons blank.1 [] (gap ++ cs)
    rw [List.nil_append, words_nil, List.nil_append, ih blank.2] at start
    exact start

theorem words_solid (nonempty : word ≠ []) (solid : ∀ c ∈ word, isBlank c = false) :
    words word = [word] := by
  rw [words, splitOn_eq_splitOnP, List.splitOnP_eq_singleton]
  · exact List.filter_cons_of_pos (by simpa using nonempty)
  · exact solid

theorem Spaced.words_eq (h : Spaced ws cs) : words cs = ws := by
  induction h with
  | @blank gap blank =>
    have none := words_append_blank blank []
    rwa [List.append_nil, words_nil] at none
  | @word gap word rest ws blank nonempty solid parted _ ih =>
    have first := words_solid nonempty solid
    rw [words_append_blank blank]
    cases rest with
    | nil => rw [List.append_nil, first, ← ih, words_nil]
    | cons c rest =>
      have start := words_append_blank (List.forall_mem_singleton.mpr (parted c rfl)) rest
      rw [words_append_cons (parted c rfl), first, ← start, ← ih]
      rfl

theorem Spaced.cons_blank (blank : isBlank c = true) (h : Spaced ws cs) : Spaced ws (c :: cs) := by
  cases h with
  | blank gap => exact .blank (List.forall_mem_cons.mpr ⟨blank, gap⟩)
  | word gap nonempty solid parted spaced =>
    exact .word (List.forall_mem_cons.mpr ⟨blank, gap⟩) nonempty solid parted spaced

theorem Spaced.cons_solid (solid : isBlank c = false) (h : Spaced ws cs) :
    ∃ ws, Spaced ws (c :: cs) := by
  have alone {rest : List Char} {ws : List (List Char)}
      (parted : ∀ d ∈ rest.head?, isBlank d = true) (spaced : Spaced ws rest) :
      Spaced ([c] :: ws) (c :: rest) :=
    @Spaced.word [] [c] rest ws (by simp) (by simp) (List.forall_mem_singleton.mpr solid) parted
      spaced
  cases h with
  | blank gap => exact ⟨_, alone (fun d hd => gap d (List.mem_of_mem_head? hd)) (.blank gap)⟩
  | @word gap word rest ws blank nonempty word_solid parted spaced =>
    cases gap with
    | nil =>
      have longer : ∀ d ∈ c :: word, isBlank d = false :=
        List.forall_mem_cons.mpr ⟨solid, word_solid⟩
      exact ⟨_, @Spaced.word [] (c :: word) rest ws (by simp) (by simp) longer parted spaced⟩
    | cons d gap =>
      refine ⟨_, alone (fun first here => ?_) (.word blank nonempty word_solid parted spaced)⟩
      rw [← Option.some.inj here]
      exact blank d List.mem_cons_self

/-- Every text falls into words, in one way. -/
theorem words_eq_iff : words cs = ws ↔ Spaced ws cs := by
  have falls (cs : List Char) : ∃ ws, Spaced ws cs := by
    induction cs with
    | nil => exact ⟨[], .blank (by simp)⟩
    | cons c cs ih =>
      obtain ⟨ws, spaced⟩ := ih
      cases solid : isBlank c with
      | true => exact ⟨ws, spaced.cons_blank solid⟩
      | false => exact spaced.cons_solid solid
  constructor
  · rintro rfl
    obtain ⟨ws, spaced⟩ := falls cs
    rwa [spaced.words_eq]
  · exact Spaced.words_eq

theorem Spaced.isBlank_or_mem (h : Spaced ws cs) (hc : c ∈ cs) :
    isBlank c = true ∨ ∃ w ∈ ws, c ∈ w := by
  induction h with
  | blank gap => exact .inl (gap c hc)
  | word gap _ _ _ _ ih =>
    rw [List.mem_append, List.mem_append] at hc
    rcases hc with hc | hc | hc
    · exact .inl (gap c hc)
    · exact .inr ⟨_, List.mem_cons_self, hc⟩
    · exact (ih hc).imp_right fun ⟨w, hw, mem⟩ => ⟨w, List.mem_cons_of_mem _ hw, mem⟩

theorem Spaced.ne_nil (h : Spaced ws cs) : ∀ w ∈ ws, w ≠ [] := by
  induction h with
  | blank => simp
  | word _ nonempty _ _ _ ih => exact List.forall_mem_cons.mpr ⟨nonempty, ih⟩

theorem spaced_flatMap (nonempty : ∀ w ∈ ws, w ≠ [])
    (solid : ∀ w ∈ ws, ∀ c ∈ w, isBlank c = false) : Spaced ws (ws.flatMap (' ' :: ·)) := by
  induction ws with
  | nil => exact .blank (by simp)
  | cons w ws ih =>
    rw [List.forall_mem_cons] at nonempty solid
    have parted : ∀ c ∈ (ws.flatMap (' ' :: ·)).head?, isBlank c = true := by
      cases ws with
      | nil => simp
      | cons => simpa using by decide
    have blank : ∀ c ∈ [' '], isBlank c = true := List.forall_mem_singleton.mpr (by decide)
    exact .word blank nonempty.1 solid.1 parted (ih nonempty.2 solid.2)

/-! ## Numerals -/

/-- One decimal digit or more, perhaps behind a plus sign, that write the number. -/
def Numeral (n : Nat) (cs : List Char) : Prop :=
  ∃ digits : List Nat, digits ≠ [] ∧ (∀ d ∈ digits, d < 10) ∧
    Nat.ofDigits 10 digits.reverse = n ∧
      (cs = digits.map Nat.digitChar ∨ cs = '+' :: digits.map Nat.digitChar)

theorem digitChar_spec {d : Nat} (h : d < 10) : digitValue? d.digitChar = some d ∧
    d.digitChar ≠ '+' ∧ d.digitChar ≠ ';' ∧ d.digitChar.isAlpha = false ∧
      isBlank d.digitChar = false := by
  have all : ∀ d < 10, digitValue? d.digitChar = some d ∧ d.digitChar ≠ '+' ∧
      d.digitChar ≠ ';' ∧ d.digitChar.isAlpha = false ∧ isBlank d.digitChar = false := by decide
  exact all d h

theorem foldlM_digits {digits : List Nat} (small : ∀ d ∈ digits, d < 10) (m : Nat) :
    (digits.map Nat.digitChar).foldlM (fun n c => (digitValue? c).map (n * 10 + ·)) m =
      some (digits.foldl (fun n d => n * 10 + d) m) := by
  induction digits generalizing m with
  | nil => rfl
  | cons d ds ih =>
    rw [List.forall_mem_cons] at small
    rw [List.map_cons, List.foldlM_cons, (digitChar_spec small.1).1]
    exact ih small.2 _

theorem Numeral.decimal?_eq (h : Numeral n cs) (lt : n < bound) : decimal? bound cs = some n := by
  obtain ⟨digits, nonempty, small, value, spelt⟩ := h
  have total : digits.foldl (fun n d => n * 10 + d) 0 = n := by
    rw [← value, Nat.ofDigits_eq_foldr, List.foldr_reverse]
    congr
    funext n d
    rw [Nat.mul_comm, Nat.add_comm]
    rfl
  have read := foldlM_digits small 0
  rw [total] at read
  obtain ⟨d, ds, rfl⟩ := List.exists_cons_of_ne_nil nonempty
  rcases spelt with rfl | rfl
  · have unsigned := (digitChar_spec (small d List.mem_cons_self)).2.1
    unfold decimal?
    split
    · next eq => exact absurd (List.cons.inj eq).1 unsigned
    · rw [if_neg (by simp), read]
      exact if_pos lt
  · rw [decimal?, if_neg (by simp), read]
    exact if_pos lt

theorem Numeral.ne_nil (h : Numeral n cs) : cs ≠ [] := by
  obtain ⟨digits, nonempty, -, -, rfl | rfl⟩ := h
  · simpa using nonempty
  · exact List.cons_ne_nil _ _

theorem Numeral.plain (h : Numeral n cs) :
    ∀ c ∈ cs, c.isAlpha = false ∧ c ≠ ';' ∧ isBlank c = false := by
  obtain ⟨digits, -, small, -, spelt⟩ := h
  have body : ∀ c ∈ digits.map Nat.digitChar, c.isAlpha = false ∧ c ≠ ';' ∧ isBlank c = false := by
    intro c hc
    obtain ⟨d, hd, rfl⟩ := List.mem_map.mp hc
    obtain ⟨-, -, plain, letterless, solid⟩ := digitChar_spec (small d hd)
    exact ⟨letterless, plain, solid⟩
  rcases spelt with rfl | rfl
  · exact body
  · exact List.forall_mem_cons.mpr ⟨by decide, body⟩

theorem exists_numeral (n : Nat) : ∃ cs, Numeral n cs := by
  by_cases zero : n = 0
  · exact ⟨_, [0], by simp, by simp, by simp [zero], .inl rfl⟩
  · refine ⟨_, (Nat.digits 10 n).reverse, ?_, ?_, ?_, .inl rfl⟩
    · simpa [Nat.digits_eq_nil_iff_eq_zero] using zero
    · exact fun d hd => Nat.digits_lt_base (by decide) (List.mem_reverse.mp hd)
    · rw [List.reverse_reverse, Nat.ofDigits_digits]

end Text

end ResolverGate
