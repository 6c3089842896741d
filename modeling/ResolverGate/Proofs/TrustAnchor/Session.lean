import Mathlib.Data.List.Induction
import ResolverGate.Proofs.TrustAnchor.Set
import ResolverGate.TrustAnchor.Manager

/-! # Sessions of a trust anchor manager

A session begins with loading and goes on with proposals, their completion and their
abandonment. At any time the proposed set is the texts proposed since the last completion
or abandonment.
-/

namespace ResolverGate

variable {S : Type}

theorem Backend.sendAll_of_accepts {backend : Backend} (accepts : ∀ n r, backend n r = .ok ())
    (n : Nat) (rs : List Request) : backend.sendAll n rs = (rs, .ok ()) := by
  induction rs generalizing n with
  | nil => rfl
  | cons r rs ih => rw [sendAll, accepts, ih]

/-- The set that is kept, as far as it can be read. -/
def AnchorStore.kept (ops : AnchorStore S) (store : Option S) : TrustAnchors :=
  match store.map fun store => (ops.load store).1 with
  | some (.ok anchors) => .ofList anchors
  | _ => .empty

theorem AnchorStore.ordered_kept (ops : AnchorStore S) (store : Option S) :
    (ops.kept store).Ordered := by
  unfold kept
  split
  · exact TrustAnchors.ordered_ofList _
  · exact TrustAnchors.ordered_empty

namespace AnchorManager

inductive Operation
  | propose (anchor : String)
  | abort
  | complete
  deriving DecidableEq, Repr

def pending (operations : List Operation) : List String :=
  operations.foldl (fun texts op =>
    match op with
    | .propose anchor => texts ++ [anchor]
    | _ => []) []

/-- A manager, and what has come of it since it was made. -/
structure Session (S : Type) where
  manager : AnchorManager S
  /-- What it was asked to do once it had loaded. -/
  operations : List Operation
  sent : List Request
  /-- What its completions gave. -/
  completions : List (Except Fault Bool)

namespace Session

/-- Loading. The channel may treat each operation in its own way: it is told of the
operations so far. -/
def opened (ops : AnchorStore S) (channel : List Operation → Backend) (store : Option S) :
    Session S :=
  let (_, manager, fx) := (start store).load ops (channel [])
  ⟨manager, [], fx.sent, []⟩

def next (ops : AnchorStore S) (channel : List Operation → Backend) (s : Session S)
    (op : Operation) : Session S :=
  let operations := s.operations ++ [op]
  match op with
  | .propose anchor => { s with manager := s.manager.propose anchor, operations }
  | .abort => { s with manager := s.manager.abort, operations }
  | .complete =>
    let (changed, manager, fx) := s.manager.complete ops (channel operations)
    ⟨manager, operations, s.sent ++ fx.sent, s.completions ++ [changed]⟩

def run (ops : AnchorStore S) (channel : List Operation → Backend) (store : Option S)
    (operations : List Operation) : Session S :=
  operations.foldl (next ops channel) (opened ops channel store)

end Session

/-! ## Single operations -/

section Operations

variable (m : AnchorManager S) (ops : AnchorStore S) (store : Option S) (backend : Backend)

theorem load_start : ((start store).load ops backend).2.1 = ⟨ops.kept store, .empty, store⟩ := by
  cases store with
  | none => rfl
  | some store =>
    rcases h : ops.load store with ⟨fault | anchors, notices⟩
    · simp [load, start, AnchorStore.kept, h]
    · simp only [load, start, AnchorStore.kept, h, Option.map_some]
      split <;> rfl

/-- Whatever the channel and the store say, the proposed set becomes active, and the store
is asked once to keep it. -/
theorem complete_manager : (m.complete ops backend).2.1 =
    ⟨m.proposed, .empty, m.store.map fun store => (ops.save m.proposed store).2⟩ := by
  rw [complete, TrustAnchors.merge_eq]
  simp only [Option.map_map]
  split
  · split <;> rfl
  · rfl

variable {backend} (accepts : ∀ n r, backend n r = .ok ())
include accepts

theorem load_start_sent : ((start store).load ops backend).2.2.sent =
    if (ops.kept store).anchors = [] then [] else announcement (ops.kept store) := by
  cases store with
  | none => rfl
  | some store =>
    rcases h : ops.load store with ⟨fault | anchors, notices⟩
    · simp [load, start, AnchorStore.kept, TrustAnchors.empty, h]
    · simp only [load, start, AnchorStore.kept, TrustAnchors.ofList, h, Option.map_some,
        Backend.sendAll_of_accepts accepts, List.length_eq_zero_iff]

theorem load_start_of_accepts
    (readable : ∀ store' ∈ store, ∃ anchors, (ops.load store').1 = .ok anchors) :
    ((start store).load ops backend).1 = .ok (ops.kept store).anchors.length := by
  cases store with
  | none => rfl
  | some store =>
    obtain ⟨anchors, read⟩ := readable store rfl
    rcases h : ops.load store with ⟨fault | anchors, notices⟩
    · simp [h] at read
    · simp only [load, start, AnchorStore.kept, TrustAnchors.ofList, h, Option.map_some,
        Backend.sendAll_of_accepts accepts]

theorem complete_of_accepts :
    (m.complete ops backend).1 = .ok (decide (m.active ≠ m.proposed)) := by
  rw [complete, TrustAnchors.merge_eq]
  simp only [Backend.sendAll_of_accepts accepts]
  split
  · next changed => rw [changed]
  · next same => rw [Bool.eq_false_iff.mpr same]

theorem complete_sent : (m.complete ops backend).2.2.sent =
    if m.active = m.proposed then [] else announcement m.proposed := by
  rw [complete, TrustAnchors.merge_eq]
  simp only [Backend.sendAll_of_accepts accepts, decide_eq_true_eq, ne_eq, ite_not]
  split <;> rfl

end Operations

/-! ## Whole sessions -/

theorem pending_snoc (operations : List Operation) (op : Operation) :
    pending (operations ++ [op]) =
      match op with
      | .propose anchor => pending operations ++ [anchor]
      | _ => [] := by
  rw [pending, List.foldl_append]
  rfl

namespace Session

variable {ops : AnchorStore S} {channel : List Operation → Backend} {store : Option S}
  {operations : List Operation}

theorem run_snoc (op : Operation) : run ops channel store (operations ++ [op]) =
    (run ops channel store operations).next ops channel op := by
  rw [run, List.foldl_append]
  rfl

theorem run_nil_manager : (run ops channel store []).manager = ⟨ops.kept store, .empty, store⟩ :=
  load_start ops store (channel [])

theorem ordered_run : (run ops channel store operations).manager.active.Ordered ∧
    (run ops channel store operations).manager.proposed.Ordered := by
  induction operations using List.reverseRecOn with
  | nil =>
    rw [run_nil_manager]
    exact ⟨ops.ordered_kept store, TrustAnchors.ordered_empty⟩
  | append_singleton operations op ih =>
    obtain ⟨active, proposed⟩ := ih
    rw [run_snoc]
    cases op with
    | propose anchor => exact ⟨active, proposed.add anchor⟩
    | abort => exact ⟨active, TrustAnchors.ordered_empty⟩
    | complete =>
      simp only [next, complete_manager]
      exact ⟨proposed, TrustAnchors.ordered_empty⟩

/-- The proposed set is what was proposed since the last completion or abandonment. -/
theorem mem_proposed_run {a : String} :
    a ∈ (run ops channel store operations).manager.proposed.anchors ↔ a ∈ pending operations := by
  induction operations using List.reverseRecOn with
  | nil =>
    rw [run_nil_manager]
    exact Iff.rfl
  | append_singleton operations op ih =>
    rw [run_snoc, pending_snoc]
    cases op with
    | propose anchor =>
      simp only [next, propose, TrustAnchors.mem_add, List.mem_append, List.mem_singleton, ih]
      exact or_comm
    | abort => exact Iff.rfl
    | complete =>
      simp only [next, complete_manager]
      exact Iff.rfl

end Session

end AnchorManager

end ResolverGate
