import Mathlib.Data.List.DropRight
import ResolverGate.Text.Blank

/-! # Lines

Lines that are written one after the other are read one after the other. A line that was
trimmed has nothing more to trim.
-/

namespace ResolverGate

namespace Text

variable {separator : Char → Bool} {cs piece : List Char}

theorem splitOn_eq_splitOnP (separator : Char → Bool) (cs : List Char) :
    splitOn separator cs = cs.splitOnP separator := by
  induction cs with
  | nil => rfl
  | cons c cs ih =>
    rw [List.splitOnP_cons_eq_if_modifyHead, ← ih]
    change splitOn.step separator c (splitOn separator cs) = _
    unfold splitOn.step
    split
    · rfl
    · match h : splitOn separator cs with
      | piece :: pieces => rfl
      | [] => exact absurd (ih.symm.trans h) (List.splitOnP_ne_nil _ _)

theorem separator_of_mem_splitOn (h : piece ∈ splitOn separator cs) :
    ∀ c ∈ piece, separator c = false := by
  induction cs generalizing piece with
  | nil =>
    obtain rfl : piece = [] := List.mem_singleton.mp h
    simp
  | cons c cs ih =>
    change piece ∈ splitOn.step separator c (splitOn separator cs) at h
    unfold splitOn.step at h
    split at h
    · rcases List.mem_cons.mp h with rfl | h
      · simp
      · exact ih h
    · next plain =>
      split at h
      · next first pieces eq =>
        rw [eq] at ih
        rcases List.mem_cons.mp h with rfl | h
        · intro d hd
          rcases List.mem_cons.mp hd with rfl | hd
          · simpa using plain
          · exact ih List.mem_cons_self d hd
        · exact ih (List.mem_cons_of_mem _ h)
      · obtain rfl : piece = [c] := List.mem_singleton.mp h
        simpa using plain

/-- Lines with their ends are cut at these, and nothing stands behind the last of them. -/
theorem splitOn_flatMap {ls : List (List Char)} (single : ∀ l ∈ ls, '\n' ∉ l) :
    splitOn (· = '\n') (ls.flatMap (· ++ ['\n'])) = ls ++ [[]] := by
  induction ls with
  | nil => rfl
  | cons l ls ih =>
    have first : ∀ c ∈ l, decide (c = '\n') = false := fun c hc =>
      decide_eq_false fun eq => single l List.mem_cons_self (eq ▸ hc)
    rw [splitOn_eq_splitOnP] at ih ⊢
    rw [List.flatMap_cons, List.append_assoc, List.singleton_append,
      List.splitOnP_append_cons_of_forall_mem first '\n' rfl,
      ih fun l hl => single l (List.mem_cons_of_mem _ hl), List.cons_append]

theorem map_snd_trimmedLines (s : String) :
    (trimmedLines s).map (·.2) = (splitOn (· = '\n') s.toList).map trim := by
  rw [trimmedLines, List.map_map]
  exact List.zipIdx_map_fst _ _

/-! ## Trimming -/

theorem trim_eq (cs : List Char) : trim cs = (cs.dropWhile isBlank).rdropWhile isBlank := rfl

theorem mem_of_mem_trim {c : Char} (h : c ∈ trim cs) : c ∈ cs :=
  (List.dropWhile_suffix _).subset ((List.rdropWhile_prefix _ _).subset h)

theorem trim_trim (cs : List Char) : trim (trim cs) = trim cs := by
  have front : (trim cs).dropWhile isBlank = trim cs := by
    rw [List.dropWhile_eq_self_iff]
    intro pos
    have start : trim cs <+: cs.dropWhile isBlank := List.rdropWhile_prefix _ _
    rw [start.getElem pos]
    exact List.dropWhile_get_zero_not isBlank cs _
  rw [trim_eq (trim cs), front, trim_eq, List.rdropWhile_idempotent]

theorem trim_append {after : List Char} (blank : ∀ c ∈ after, isBlank c = true) :
    trim (cs ++ after) = trim cs := by
  have behind (l : List Char) : (l ++ after).rdropWhile isBlank = l.rdropWhile isBlank := by
    rw [List.rdropWhile, List.reverse_append, List.dropWhile_append_of_pos, List.rdropWhile]
    exact fun c hc => blank c (List.mem_reverse.mp hc)
  rw [trim_eq, trim_eq, List.dropWhile_append]
  split
  · next empty =>
    rw [List.dropWhile_eq_nil_iff.mpr blank, List.isEmpty_iff.mp empty]
  · exact behind _

theorem dropWhile_concat {front : List Char} {c : Char} (solid : isBlank c = false) :
    (front ++ [c]).dropWhile isBlank = front.dropWhile isBlank ++ [c] := by
  have stop : ¬ isBlank c = true := by simp [solid]
  rw [List.dropWhile_append, List.dropWhile_cons_of_neg stop]
  split
  · next empty => rw [List.isEmpty_iff.mp empty, List.nil_append]
  · rfl

theorem trim_append_cons {front after : List Char} {c : Char} (solid : isBlank c = false)
    (blank : ∀ d ∈ after, isBlank d = true) :
    trim (front ++ c :: after) = front.dropWhile isBlank ++ [c] := by
  rw [List.append_cons, trim_append blank, trim_eq, dropWhile_concat solid,
    List.rdropWhile_concat_neg]
  simp [solid]

theorem head?_trim_cons {c : Char} (solid : isBlank c = false) :
    (trim (c :: cs)).head? = some c := by
  have stop : ¬ isBlank c = true := by simp [solid]
  have kept : trim (c :: cs) ≠ [] := by
    rw [trim_eq, List.dropWhile_cons_of_neg stop, ne_eq, List.rdropWhile_eq_nil_iff]
    exact fun blank => stop (blank c List.mem_cons_self)
  have start : trim (c :: cs) <+: c :: cs := by
    rw [trim_eq, List.dropWhile_cons_of_neg stop]
    exact List.rdropWhile_prefix _ _
  obtain ⟨d, rest, eq⟩ := List.exists_cons_of_ne_nil kept
  rw [eq, List.cons_prefix_cons] at start
  rw [eq, List.head?_cons, start.1]

theorem trim_of_solid (solid : ∀ c ∈ cs, isBlank c = false) : trim cs = cs := by
  have front : cs.dropWhile isBlank = cs := by
    rw [List.dropWhile_eq_self_iff]
    intro pos
    simp [solid _ (List.getElem_mem pos)]
  rw [trim_eq, front, List.rdropWhile_eq_self_iff]
  intro nonempty
  simp [solid _ (List.getLast_mem nonempty)]

/-- A text with blanks around it. -/
def Padded (cs padded : List Char) : Prop :=
  ∃ before after, padded = before ++ (cs ++ after) ∧ (∀ c ∈ before, isBlank c = true) ∧
    ∀ c ∈ after, isBlank c = true

theorem padded_trim (cs : List Char) : Padded (trim cs) cs := by
  refine ⟨cs.takeWhile isBlank, (cs.dropWhile isBlank).rtakeWhile isBlank, ?_, ?_, ?_⟩
  · rw [trim_eq, List.rdropWhile_append_rtakeWhile, List.takeWhile_append_dropWhile]
  · exact fun c hc => List.mem_takeWhile_imp hc
  · exact fun c hc => List.mem_rtakeWhile_imp hc

theorem Padded.trim_eq {padded : List Char} (h : Padded cs padded) : trim padded = trim cs := by
  obtain ⟨before, after, rfl, front, back⟩ := h
  rw [Text.trim_eq, List.dropWhile_append_of_pos front, ← Text.trim_eq, trim_append back]

end Text

end ResolverGate
