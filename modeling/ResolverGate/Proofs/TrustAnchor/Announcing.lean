import ResolverGate.Proofs.TrustAnchor.Session

/-! # What the engine knows of trust anchors

The engine takes the anchors that it is sent for a set when it is told that they are all.
If no request is lost, the set that it knows is the active one at any time; and a
completion is silent unless it changes the active set, but always saved.
-/

namespace ResolverGate

variable {S : Type}

/-- A store that remembers what it was asked to keep. -/
def AnchorStore.recorded (ops : AnchorStore S) : AnchorStore (S × List TrustAnchors) where
  load store := ops.load store.1
  save anchors store :=
    let (result, kept) := ops.save anchors store.1
    (result, kept, store.2 ++ [anchors])

namespace AnchorManager

/-- What requests tell of anchors. -/
structure Heard where
  /-- The anchors in front of the last `trustAnchorsDone`, back to the one before it. -/
  announced : List String
  /-- The anchors behind it. -/
  begun : List String
  deriving DecidableEq, Repr

namespace Heard

def hear (h : Heard) : Request → Heard
  | .trustAnchor anchor => { h with begun := h.begun ++ [anchor] }
  | .trustAnchorsDone => ⟨h.begun, []⟩
  | _ => h

def ofRequests (sent : List Request) : Heard := sent.foldl hear ⟨[], []⟩

theorem foldl_trustAnchor (h : Heard) (anchors : List String) :
    (anchors.map Request.trustAnchor).foldl hear h = { h with begun := h.begun ++ anchors } := by
  induction anchors generalizing h with
  | nil => simp
  | cons anchor anchors ih => simp [ih, hear]

theorem ofRequests_append_announcement {sent : List Request} {known : List String}
    (h : ofRequests sent = ⟨known, []⟩) (anchors : TrustAnchors) :
    ofRequests (sent ++ announcement anchors) = ⟨anchors.anchors, []⟩ := by
  rw [ofRequests] at h
  rw [ofRequests, List.foldl_append, h, announcement, List.foldl_append, foldl_trustAnchor]
  rfl

end Heard

namespace Session

/-- What a completion does to a session in which these texts are proposed. -/
structure Completes (ops : AnchorStore S) (texts : List String)
    (s s' : Session (S × List TrustAnchors)) (changed : Bool) : Prop where
  gives : s'.completions = s.completions ++ [.ok changed]
  changed_iff : changed = true ↔ ¬ ∀ a, a ∈ texts ↔ a ∈ s.manager.active.anchors
  active : ∀ a, a ∈ s'.manager.active.anchors ↔ a ∈ texts
  proposed : s'.manager.proposed = .empty
  silent : changed = false → s'.sent = s.sent
  saved : s'.manager.store = s.manager.store.map fun (kept, saved) =>
    ((ops.save s'.manager.active kept).2, saved ++ [s'.manager.active])

variable {ops : AnchorStore S} {channel : List Operation → Backend} {store : Option S}
  {operations : List Operation}

theorem heard_run (accepts : ∀ operations n r, channel operations n r = .ok ()) :
    Heard.ofRequests (run ops channel store operations).sent =
      ⟨(run ops channel store operations).manager.active.anchors, []⟩ := by
  induction operations using List.reverseRecOn with
  | nil =>
    rw [run_nil_manager, run, List.foldl_nil, opened]
    simp only [load_start_sent ops store (accepts [])]
    split
    · next none => rw [none]; rfl
    · have unheard : Heard.ofRequests [] = ⟨[], []⟩ := rfl
      exact Heard.ofRequests_append_announcement unheard _
  | append_singleton operations op ih =>
    rw [run_snoc]
    cases op with
    | propose anchor => exact ih
    | abort => exact ih
    | complete =>
      simp only [next, complete_manager, complete_sent _ ops (accepts _)]
      split
      · next same => rw [List.append_nil, ih, same]
      · exact Heard.ofRequests_append_announcement ih _

theorem completes_run {ops : AnchorStore S} {store : Option (S × List TrustAnchors)}
    (accepts : ∀ operations n r, channel operations n r = .ok ()) :
    ∃ changed, Completes ops (pending operations) (run ops.recorded channel store operations)
      (run ops.recorded channel store (operations ++ [.complete])) changed := by
  obtain ⟨active, proposed⟩ := @ordered_run _ ops.recorded channel store operations
  rw [run_snoc]
  generalize hs : run ops.recorded channel store operations = s at active proposed ⊢
  have members (a) : a ∈ s.manager.proposed.anchors ↔ a ∈ pending operations :=
    hs ▸ mem_proposed_run
  -- Both sets are in order, so that comparing them compares their members.
  have same : s.manager.active = s.manager.proposed ↔
      ∀ a, a ∈ pending operations ↔ a ∈ s.manager.active.anchors := by
    rw [active.eq_iff proposed]
    exact forall_congr' fun a => (iff_congr Iff.rfl (members a)).trans Iff.comm
  refine ⟨decide (s.manager.active ≠ s.manager.proposed), ?_, ?_, ?_, ?_, ?_, ?_⟩
  · simp only [next, complete_of_accepts _ _ (accepts _)]
  · rw [decide_eq_true_iff, ne_eq, same]
  · simp only [next, complete_manager]
    exact members
  · simp only [next, complete_manager]
  · intro unchanged
    have eq := of_decide_eq_false unchanged
    simp only [next, complete_sent _ _ (accepts _), if_pos (not_not.mp eq), List.append_nil]
  · simp only [next, complete_manager]
    rfl

def Agree (s s' : Session S) : Prop :=
  s.manager = s'.manager ∧ s.sent = s'.sent ∧ s.completions = s'.completions

theorem Agree.trans {s₁ s₂ s₃ : Session S} (h : Agree s₁ s₂) (h' : Agree s₂ s₃) : Agree s₁ s₃ :=
  ⟨h.1.trans h'.1, h.2.1.trans h'.2.1, h.2.2.trans h'.2.2⟩

theorem Agree.next {s s' : Session S} (h : Agree s s') (op : Operation)
    (accepts : ∀ operations n r, channel operations n r = .ok ()) :
    Agree (s.next ops channel op) (s'.next ops channel op) := by
  obtain ⟨manager, sent, completions⟩ := h
  have alike : channel (s.operations ++ [op]) = channel (s'.operations ++ [op]) := by
    funext n r
    rw [accepts, accepts]
  cases op with
  | propose anchor => exact ⟨congrArg (·.propose anchor) manager, sent, completions⟩
  | abort => exact ⟨congrArg (·.abort) manager, sent, completions⟩
  | complete => simp [Agree, Session.next, manager, sent, completions, alike]

theorem Agree.run {s s' : Session S} (h : Agree s s') (later : List Operation)
    (accepts : ∀ operations n r, channel operations n r = .ok ()) :
    Agree (later.foldl (Session.next ops channel) s)
      (later.foldl (Session.next ops channel) s') := by
  induction later generalizing s s' with
  | nil => exact h
  | cons op later ih => exact ih (h.next op accepts)

/-- Proposals that are abandoned leave no trace. -/
theorem agree_abort (s : Session S) (texts : List String) :
    Agree
      (((texts.map Operation.propose).foldl (Session.next ops channel) s).next ops channel .abort)
      (s.next ops channel .abort) := by
  induction texts generalizing s with
  | nil => exact ⟨rfl, rfl, rfl⟩
  | cons text texts ih => exact (ih _).trans ⟨rfl, rfl, rfl⟩

/-- If the channel takes every request, then after each operation the engine knows the
active set, which is in order; a completion makes the proposed set active and tells
whether that is a change; and what was abandoned leaves no trace in what comes later. -/
theorem engine_informed {ops : AnchorStore S} (store : Option S) (operations : List Operation)
    (accepts : ∀ operations n r, channel operations n r = .ok ()) :
    let after := run ops.recorded channel (store.map (·, []))
    Heard.ofRequests (after operations).sent = ⟨(after operations).manager.active.anchors, []⟩ ∧
    ((after operations).manager.active.anchors.map Bytes.ofText).Pairwise (· < ·) ∧
    (∃ changed, Completes ops (pending operations) (after operations)
      (after (operations ++ [.complete])) changed) ∧
    ∀ (texts : List String) (later : List Operation),
      Agree (after (operations ++ texts.map .propose ++ .abort :: later))
        (after (operations ++ .abort :: later)) := by
  refine ⟨heard_run accepts, ordered_run.1.octets, completes_run accepts, fun texts later => ?_⟩
  simp only [run, List.foldl_append, List.foldl_cons]
  exact (agree_abort _ texts).run later accepts

/-- Two anchors are kept, in the wrong order. One proposal is abandoned, and the next one
is completed though it cannot be saved. -/
theorem engine_informed_unsaved :
    let disk : AnchorStore Unit :=
      ⟨fun _ => (.ok ["b", "a"], []), fun _ _ => (.error (.io "disk full"), ())⟩
    let after := run disk.recorded (fun _ => .allowing none) (some ((), []))
    let operations : List Operation := [.propose "c", .abort, .propose "b", .complete]
    Heard.ofRequests (after []).sent = ⟨["a", "b"], []⟩ ∧
      (after operations).completions = [.ok true] ∧
      (after operations).manager.store = some ((), [⟨["b"]⟩]) ∧
      Heard.ofRequests (after operations).sent = ⟨["b"], []⟩ := by
  intro disk after operations
  have accepts (done : List Operation) (n : Nat) (r : Request) :
      (fun _ => Backend.allowing none : List Operation → Backend) done n r = .ok () := rfl
  have loaded : (after []).manager.active = ⟨["a", "b"]⟩ := by decide +kernel
  have completed : (after operations).manager.active = ⟨["b"]⟩ := by decide +kernel
  let told (s : TrustAnchors) : Heard := ⟨s.anchors, []⟩
  refine ⟨?_, by decide +kernel, by decide +kernel, ?_⟩
  · exact (engine_informed (some ()) [] accepts).1.trans (congrArg told loaded)
  · exact (engine_informed (some ()) operations accepts).1.trans (congrArg told completed)

end Session

end AnchorManager

end ResolverGate
