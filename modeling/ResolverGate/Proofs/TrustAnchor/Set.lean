import Mathlib.Data.List.Sort
import ResolverGate.Proofs.Text.Order
import ResolverGate.TrustAnchor.Set

/-! # Sets of anchors

A set is told by its members: sets that were built in any order and with any repetitions
are equal if they have the same members. This is so because a set is kept in order.
-/

namespace ResolverGate

namespace TrustAnchors

/-- The anchors are in strictly increasing order. -/
def Ordered (s : TrustAnchors) : Prop := s.anchors.Pairwise (· < ·)

variable {s t : TrustAnchors} {a b : String} {as : List String}

theorem mem_insertSorted : a ∈ insertSorted b as ↔ a = b ∨ a ∈ as := by
  induction as with
  | nil => simp [insertSorted]
  | cons c as ih =>
    rw [insertSorted]
    split
    · simp
    split
    · next eq => simp [eq]
    · rw [List.mem_cons, ih, List.mem_cons, or_left_comm]

theorem pairwise_insertSorted (h : as.Pairwise (· < ·)) :
    (insertSorted b as).Pairwise (· < ·) := by
  induction as with
  | nil => simp [insertSorted]
  | cons c as ih =>
    obtain ⟨first, rest⟩ := List.pairwise_cons.mp h
    rw [insertSorted]
    split
    · next lt =>
      refine List.pairwise_cons.mpr ⟨fun a ha => ?_, h⟩
      rcases List.mem_cons.mp ha with rfl | ha
      · exact lt
      · exact lt.trans (first a ha)
    split
    · exact h
    · next le ne =>
      have gt : c < b := lt_of_le_of_ne (not_lt.mp le) (Ne.symm ne)
      refine List.pairwise_cons.mpr ⟨fun a ha => ?_, ih rest⟩
      rcases mem_insertSorted.mp ha with rfl | ha
      · exact gt
      · exact first a ha

theorem ordered_empty : empty.Ordered := List.Pairwise.nil

theorem mem_add : a ∈ (s.add b).1.anchors ↔ a = b ∨ a ∈ s.anchors := mem_insertSorted

theorem Ordered.add (h : s.Ordered) (a : String) : (s.add a).1.Ordered := pairwise_insertSorted h

theorem mem_addAll : a ∈ (as.foldl (fun s a => (s.add a).1) s).anchors ↔
    a ∈ s.anchors ∨ a ∈ as := by
  induction as generalizing s with
  | nil => simp
  | cons b as ih =>
    rw [List.foldl_cons, ih, mem_add, List.mem_cons]
    tauto

theorem Ordered.addAll (h : s.Ordered) (as : List String) :
    (as.foldl (fun s a => (s.add a).1) s).Ordered := by
  induction as generalizing s with
  | nil => exact h
  | cons a as ih => exact ih (h.add a)

theorem ordered_ofList (as : List String) : (ofList as).Ordered := ordered_empty.addAll as

theorem mem_ofList : a ∈ (ofList as).anchors ↔ a ∈ as := by
  rw [ofList, mem_addAll]
  simp [empty]

theorem Ordered.eq_iff (h : s.Ordered) (h' : t.Ordered) :
    s = t ↔ ∀ a, a ∈ s.anchors ↔ a ∈ t.anchors := by
  constructor
  · rintro rfl a
    rfl
  · intro same
    have eq : s.anchors = t.anchors := List.Pairwise.eq_of_mem_iff h h' same
    exact congrArg TrustAnchors.mk eq

theorem Ordered.ofList_eq (h : s.Ordered) (same : ∀ a, a ∈ as ↔ a ∈ s.anchors) :
    ofList as = s :=
  ((ordered_ofList as).eq_iff h).mpr fun a => mem_ofList.trans (same a)

theorem Ordered.octets (h : s.Ordered) : (s.anchors.map Bytes.ofText).Pairwise (· < ·) :=
  List.pairwise_map.mpr (List.Pairwise.imp Bytes.ofText_lt_ofText h)

/-- The proposal becomes the set, whether that changes it or not. -/
theorem merge_eq (s t : TrustAnchors) : s.merge t = (t, decide (s ≠ t)) := by
  rw [merge]
  split
  · next eq => simp [eq]
  · next ne => simp [ne]

end TrustAnchors

end ResolverGate
