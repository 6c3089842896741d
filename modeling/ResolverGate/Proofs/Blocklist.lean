import Mathlib.Data.List.Forall2
import Mathlib.Data.Set.Card
import ResolverGate.Blocklist
import ResolverGate.Proofs.Text.Letters

/-! # What a blocklist holds

A name is found exactly if it was put in, but for the case of ASCII letters and a missing
final dot.
-/

namespace ResolverGate

namespace Blocklist

/-- The characters of a name, with its final dot. -/
def dotted (name : String) : List Char :=
  if isDotted name then name.toList else name.toList ++ ['.']

/-- Equal but for the case of ASCII letters and a missing final dot. -/
def Alike (a b : String) : Prop :=
  List.Forall₂ (fun c d => c.toLower = d.toLower) (dotted a) (dotted b)

/-! ## Names in normal form -/

theorem isDotted_lowerAscii (name : String) : isDotted (lowerAscii name) = isDotted name := by
  simp only [isDotted, lowerAscii, String.toList_ofList, List.getLast?_map, decide_eq_decide]
  cases name.toList.getLast? with
  | none => simp
  | some c => simp [Text.toLower_eq_iff (show '.'.isAlpha = false by decide)]

theorem toList_normalize (name : String) :
    (normalize name).toList = (dotted name).map Char.toLower := by
  simp only [normalize, isDotted_lowerAscii, dotted]
  split
  · simp [lowerAscii]
  · simp [lowerAscii]

theorem normalize_eq_iff {a b : String} : normalize a = normalize b ↔ Alike a b := by
  rw [← String.toList_inj, toList_normalize, toList_normalize, ← List.forall₂_eq_eq_eq,
    List.forall₂_map_left_iff, List.forall₂_map_right_iff, Alike]

theorem normalize_of_isNormal {name : String} (h : isNormal name = true) :
    normalize name = name := by
  obtain ⟨lower, dot⟩ : (∀ c ∈ name.toList, c.isUpper = false) ∧ isDotted name = true := by
    simpa [isNormal] using h
  rw [← String.toList_inj, toList_normalize, dotted, if_pos dot]
  exact (List.map_congr_left fun c hc => Text.toLower_eq_self (lower c hc)).trans
    (List.map_id _)

variable {a b : Blocklist} {name domain : String} {names : List String}

/-! ## What is kept -/

def kept (b : Blocklist) : Set String := {name | b.names.contains name = true}

theorem mem_kept_insert :
    name ∈ (b.insert domain).1.kept ↔ normalize domain = name ∨ name ∈ b.kept := by
  change (b.names.insert (normalize domain)).contains name = true ↔ _
  rw [Std.TreeSet.contains_insert, Bool.or_eq_true, beq_iff_eq,
    Std.LawfulEqCmp.compare_eq_iff_eq]
  rfl

theorem mem_kept_ofNames :
    name ∈ (ofNames names).kept ↔ ∃ domain ∈ names, normalize domain = name := by
  have grows (b : Blocklist) : name ∈ (names.foldl (fun b name => (b.insert name).1) b).kept ↔
      (∃ domain ∈ names, normalize domain = name) ∨ name ∈ b.kept := by
    induction names generalizing b with
    | nil => simp
    | cons domain names ih =>
      rw [List.foldl_cons, ih, mem_kept_insert, List.exists_mem_cons_iff, ← or_assoc,
        or_comm (a := normalize domain = name)]
  rw [ofNames, grows]
  simp [empty, kept]

theorem mem_kept : name ∈ b.kept ↔ name ∈ b.names.toList := by
  rw [Std.TreeSet.mem_toList, ← Std.TreeSet.contains_iff_mem]
  rfl

theorem size_eq_ncard (b : Blocklist) : b.size = b.kept.ncard := by
  have once : b.names.toList.Nodup := by
    refine Std.TreeSet.distinct_toList.imp ?_
    rintro name _ differ rfl
    exact differ Std.compare_self
  have members : b.kept = b.names.toList.toFinset := by
    ext name
    rw [List.coe_toFinset, mem_kept, Set.mem_ofPred_eq]
  rw [members, Set.ncard_coe_finset, List.toFinset_card_of_nodup once,
    Std.TreeSet.length_toList, size]

theorem sameNames_iff : a.sameNames b = true ↔ a.kept = b.kept := by
  rw [sameNames, beq_iff_eq]
  constructor
  · intro same
    ext name
    rw [mem_kept, same, mem_kept]
  · intro same
    apply Std.TreeSet.Equiv.toList_eq
    apply Std.TreeSet.Equiv.of_forall_mem_iff
    intro name
    rw [← Std.TreeSet.mem_toList, ← Std.TreeSet.mem_toList, ← mem_kept, ← mem_kept, same]

/-! ## Lookups -/

/-- The short way for names in normal form makes no difference. -/
theorem contains_eq : b.contains name = b.names.contains (normalize name) := by
  unfold contains
  split
  · next normal => rw [normalize_of_isNormal normal]
  · rfl

theorem contains_iff : b.contains name = true ↔ normalize name ∈ b.kept := by
  rw [contains_eq]
  rfl

theorem contains_empty : empty.contains name = false := by
  rw [contains_eq]
  exact Std.TreeSet.contains_emptyc

theorem contains_ofNames :
    (ofNames names).contains name = true ↔ ∃ domain ∈ names, Alike domain name := by
  simp only [contains_iff, mem_kept_ofNames, normalize_eq_iff]

end Blocklist

end ResolverGate
