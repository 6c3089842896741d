import Mathlib.Data.List.Basic
import ResolverGate.Text.Blank

/-! # Letters

A letter of ASCII has two cases, any other character one. Neither case is blank.
-/

namespace ResolverGate

namespace Text

variable {c d : Char}

theorem isUpper_iff : c.isUpper = true ↔ 65 ≤ c.toNat ∧ c.toNat ≤ 90 :=
  decide_eq_true_iff

theorem isLower_iff : c.isLower = true ↔ 97 ≤ c.toNat ∧ c.toNat ≤ 122 := by
  change (_ && _) = true ↔ _
  rw [Bool.and_eq_true, decide_eq_true_iff, decide_eq_true_iff]
  rfl

theorem isAlpha_eq (c : Char) : c.isAlpha = (c.isUpper || c.isLower) := rfl

theorem toNat_toLower (upper : c.isUpper = true) : c.toLower.toNat = c.toNat + 32 := by
  have small := isUpper_iff.mp upper
  have lower : c.toLower = ⟨c.val + 32, _⟩ := dif_pos small
  rw [lower]
  change (c.val + 32).toNat = c.toNat + 32
  rw [UInt32.toNat_add]
  exact Nat.mod_eq_of_lt (show c.toNat + 32 < 2 ^ 32 by omega)

/-- A capital becomes a small letter, and any other character stays. -/
theorem toLower_cases (c : Char) :
    (c.isUpper = true ∧ c.toLower.isLower = true) ∨ (c.isUpper = false ∧ c.toLower = c) := by
  cases upper : c.isUpper with
  | true =>
    have range := isUpper_iff.mp upper
    refine .inl ⟨rfl, isLower_iff.mpr ?_⟩
    rw [toNat_toLower upper]
    omega
  | false =>
    refine .inr ⟨rfl, dif_neg fun range => ?_⟩
    exact Bool.false_ne_true (upper.symm.trans (isUpper_iff.mpr range))

theorem toLower_eq_self (h : c.isUpper = false) : c.toLower = c := by
  obtain ⟨upper, -⟩ | ⟨-, same⟩ := toLower_cases c
  · exact absurd upper (Bool.eq_false_iff.mp h)
  · exact same

theorem isUpper_toLower (c : Char) : c.toLower.isUpper = false := by
  obtain ⟨-, lower⟩ | ⟨other, same⟩ := toLower_cases c
  · have range := isLower_iff.mp lower
    rw [Bool.eq_false_iff, ne_eq, isUpper_iff]
    omega
  · rw [same, other]

theorem isAlpha_toLower (c : Char) : c.toLower.isAlpha = c.isAlpha := by
  obtain ⟨upper, lower⟩ | ⟨-, same⟩ := toLower_cases c
  · rw [isAlpha_eq, isAlpha_eq, upper, lower, Bool.or_true, Bool.true_or]
  · rw [same]

theorem toLower_eq_iff (letterless : d.isAlpha = false) : c.toLower = d ↔ c = d := by
  have plain {e : Char} (h : e.isAlpha = false) : e.toLower = e := by
    rw [isAlpha_eq, Bool.or_eq_false_iff] at h
    exact toLower_eq_self h.1
  constructor
  · rintro rfl
    rw [isAlpha_toLower] at letterless
    rw [plain letterless]
  · rintro rfl
    exact plain letterless

theorem isBlank_of_isAlpha (h : c.isAlpha = true) : isBlank c = false := by
  rw [isAlpha_eq, Bool.or_eq_true, isUpper_iff, isLower_iff] at h
  rw [isBlank, List.any_eq_false]
  simp only [blankRanges, List.forall_mem_cons, Bool.and_eq_true, decide_eq_true_eq]
  refine ⟨?_, ?_, ?_, ?_, ?_, ?_, ?_, ?_, ?_, ?_, by simp⟩ <;> omega

theorem isBlank_toLower (c : Char) : isBlank c.toLower = isBlank c := by
  by_cases letter : c.isAlpha = true
  · rw [isBlank_of_isAlpha letter, isBlank_of_isAlpha ((isAlpha_toLower c).trans letter)]
  · rw [(toLower_eq_iff (Bool.eq_false_iff.mpr letter)).mpr rfl]

end Text

end ResolverGate
