import Mathlib.Data.Finset.Sort
import ResolverGate.Proofs.TrustAnchor.Set

/-! # Anchor sets are canonical

A set is kept in order, so that it can be searched by halving, and a new anchor goes where the
search ends. However a set came about, it is the sorted list of what it should hold.
-/

namespace ResolverGate

namespace TrustAnchors

variable {s : TrustAnchors} {as : List String} {a b : String} {found : Except Nat Nat}

/-! ## Searching by halving -/

/-- The position of an anchor between two positions, or else the one at which it belongs. -/
def search (as : List String) (a : String) (low high : Nat) : Except Nat Nat :=
  if low < high then
    let middle := (low + high) / 2
    match as[middle]? with
    | some b =>
      if b < a then search as a (middle + 1) high
      else if a < b then search as a low middle
      else .ok middle
    | none => .error low
  else .error low
termination_by high - low

/-- What a search may give: a position of the anchor, or one that parts the lesser anchors from
the greater ones. -/
inductive Finds (as : List String) (a : String) : Except Nat Nat → Prop
  | there {i : Nat} (h : as[i]? = some a) : Finds as a (.ok i)
  | between {i : Nat} (before : ∀ b ∈ as.take i, b < a) (behind : ∀ b ∈ as.drop i, a < b) :
      Finds as a (.error i)

/-- The anchor put where a search ended. Also tells whether it is new. -/
def place (s : TrustAnchors) (a : String) : Except Nat Nat → TrustAnchors × Bool
  | .ok _ => (s, false)
  | .error i => (⟨s.anchors.take i ++ a :: s.anchors.drop i⟩, true)

theorem finds_search (sorted : as.Pairwise (· < ·)) {low high : Nat} (le : low ≤ high)
    (inside : high ≤ as.length) (before : ∀ b ∈ as.take low, b < a)
    (behind : ∀ b ∈ as.drop high, a < b) : Finds as a (search as a low high) := by
  fun_induction search as a low high with
  | case1 low high lt middle b at_middle less ih =>
    have split : as.take (middle + 1) = as.take middle ++ [b] := by
      rw [List.take_add_one, at_middle, Option.toList_some]
    have below : ∀ c ∈ as.take middle, c < b := by
      have front := sorted.sublist (List.take_sublist (middle + 1) as)
      rw [split, List.pairwise_append] at front
      exact fun c hc => front.2.2 c hc b (List.mem_singleton_self b)
    apply ih (by omega) inside _ behind
    intro c hc
    rw [split, List.mem_append, List.mem_singleton] at hc
    rcases hc with hc | rfl
    · exact (below c hc).trans less
    · exact less
  | case2 low high lt middle b at_middle _ greater ih =>
    obtain ⟨inside_middle, here⟩ := List.getElem?_eq_some_iff.mp at_middle
    have split : as.drop middle = b :: as.drop (middle + 1) := by
      rw [List.drop_eq_getElem_cons inside_middle, here]
    have above : ∀ c ∈ as.drop (middle + 1), b < c := by
      have back := sorted.sublist (List.drop_sublist middle as)
      rw [split, List.pairwise_cons] at back
      exact back.1
    apply ih (by omega) inside_middle.le before
    intro c hc
    rw [split, List.mem_cons] at hc
    rcases hc with rfl | hc
    · exact greater
    · exact greater.trans (above c hc)
  | case3 low high lt middle b at_middle not_less not_greater =>
    obtain rfl : b = a := le_antisymm (not_lt.mp not_greater) (not_lt.mp not_less)
    exact .there at_middle
  | case4 low high lt middle beyond =>
    have past := List.getElem?_eq_none_iff.mp beyond
    omega
  | case5 low high done =>
    obtain rfl : low = high := by omega
    exact .between before behind

theorem Ordered.finds (h : s.Ordered) (a : String) :
    Finds s.anchors a (search s.anchors a 0 s.anchors.length) := by
  apply finds_search h (Nat.zero_le _) le_rfl
  · simp
  · simp

/-- To add an anchor is to put it where a search ends, whichever search it is. -/
theorem Ordered.add_eq_place (h : s.Ordered) (finds : Finds s.anchors a found) :
    s.add a = s.place a found := by
  cases finds with
  | @there i at_i =>
    have mem : a ∈ s.anchors := List.mem_of_getElem? at_i
    have same : (s.add a).1 = s := by
      refine ((h.add a).eq_iff h).mpr fun b => ?_
      rw [mem_add, or_iff_right_of_imp]
      rintro rfl
      exact mem
    exact Prod.ext same (decide_eq_false (not_not.mpr mem))
  | @between i before behind =>
    have split := List.take_append_drop i s.anchors
    have absent : a ∉ s.anchors := by
      intro mem
      rw [← split, List.mem_append] at mem
      rcases mem with mem | mem
      · exact lt_irrefl a (before a mem)
      · exact lt_irrefl a (behind a mem)
    have ordered : Ordered ⟨s.anchors.take i ++ a :: s.anchors.drop i⟩ := by
      have parts : (s.anchors.take i ++ s.anchors.drop i).Pairwise (· < ·) := split.symm ▸ h
      obtain ⟨front, back, across⟩ := List.pairwise_append.mp parts
      refine List.pairwise_append.mpr ⟨front, List.pairwise_cons.mpr ⟨behind, back⟩, ?_⟩
      intro b hb c hc
      rcases List.mem_cons.mp hc with rfl | hc
      · exact before b hb
      · exact across b hb c hc
    have same : (s.add a).1 = ⟨s.anchors.take i ++ a :: s.anchors.drop i⟩ := by
      refine ((h.add a).eq_iff ordered).mpr fun b => ?_
      have member : b ∈ s.anchors ↔ b ∈ s.anchors.take i ∨ b ∈ s.anchors.drop i := by
        rw [← List.mem_append, split]
      rw [mem_add, member, List.mem_append, List.mem_cons, or_left_comm]
    exact Prod.ext same (decide_eq_true absent)

/-! ## Histories -/

/-- How a set came about. A proposal that is merged in has a history of its own. -/
inductive History
  | new
  | collected (anchors : List String)
  | added (before : History) (anchor : String)
  | merged (before proposed : History)
  | cleared (before : History)
  deriving DecidableEq, Repr

namespace History

def set : History → TrustAnchors
  | new => .empty
  | collected anchors => .ofList anchors
  | added h anchor => (h.set.add anchor).1
  | merged h proposed => (h.set.merge proposed.set).1
  | cleared h => h.set.clear

def members : History → Finset String
  | new => ∅
  | collected anchors => anchors.toFinset
  | added h anchor => insert anchor h.members
  | merged _ proposed => proposed.members
  | cleared _ => ∅

theorem ordered (h : History) : h.set.Ordered := by
  induction h with
  | new => exact ordered_empty
  | collected anchors => exact ordered_ofList anchors
  | added h anchor ih => exact ih.add anchor
  | merged h proposed _ ih =>
    rw [set, merge_eq]
    exact ih
  | cleared h => exact List.Pairwise.nil

theorem mem_set (h : History) (a : String) : a ∈ h.set.anchors ↔ a ∈ h.members := by
  induction h with
  | new => simp [set, members, empty]
  | collected anchors => rw [set, members, mem_ofList, List.mem_toFinset]
  | added h anchor ih => rw [set, members, mem_add, ih, Finset.mem_insert]
  | merged h proposed _ ih => rw [set, members, merge_eq, ih]
  | cleared h => simp [set, members, clear]

/-- The set is what it should hold, in order. -/
theorem anchors_eq_sort (h : History) : h.set.anchors = h.members.sort := by
  apply List.Pairwise.eq_of_mem_iff h.ordered (Finset.sortedLT_sort h.members).pairwise
  intro a
  rw [h.mem_set, Finset.mem_sort]

theorem set_eq_iff (h g : History) : h.set = g.set ↔ h.members = g.members := by
  rw [h.ordered.eq_iff g.ordered, Finset.ext_iff]
  simp only [mem_set]

/-- However two sets came about, each is the list of what it should hold, in the strictly
increasing order of octets. Adding puts an anchor where a search by halving ends, and tells
whether it is new. The sets are equal if they should hold the same; merging tells whether they
do not, and leaves the proposal. The file's text is made of what the set should hold. -/
theorem canonical (h g : History) :
    (h.set.anchors.map Bytes.ofText).Pairwise (· < ·) ∧
      (∀ a, a ∈ h.set.anchors ↔ a ∈ h.members) ∧
      (∀ a, h.set.add a = h.set.place a (search h.set.anchors a 0 h.set.anchors.length) ∧
        ((h.set.add a).2 = true ↔ a ∉ h.members)) ∧
      (h.set = g.set ↔ h.members = g.members) ∧
      h.set.merge g.set = (g.set, decide (h.members ≠ g.members)) ∧
      h.set.fileText = String.join (h.members.sort.map (· ++ "\n")) := by
  refine ⟨h.ordered.octets, h.mem_set, fun a => ⟨?_, ?_⟩, h.set_eq_iff g, ?_, ?_⟩
  · exact h.ordered.add_eq_place (h.ordered.finds a)
  · rw [add, decide_eq_true_iff, h.mem_set]
  · rw [merge_eq, Prod.mk.injEq]
    exact ⟨rfl, decide_eq_decide.mpr (not_congr (h.set_eq_iff g))⟩
  · rw [fileText, h.anchors_eq_sort]

end History

end TrustAnchors

end ResolverGate
