import ResolverGate.WireBuffer

/-! # Filling a buffer

A buffer that is being filled holds exactly what was written to it so far. Its
cursors follow from that, and flipping it makes those octets readable.
-/

namespace ResolverGate.WireBuffer

/-- The cursors are in order and inside the storage. -/
structure Ordered (b : WireBuffer) : Prop where
  position_le : b.position ≤ b.limit
  limit_le : b.limit ≤ b.capacity

/-- The octets `m` are written, out of `size` for which there is room. -/
structure Filled (b : WireBuffer) (m : Bytes) (size : Nat) : Prop where
  position_eq : b.position = m.length
  limit_eq : b.limit = size
  capacity_eq : b.capacity = size
  written : m <+: b.data

variable {b b' : WireBuffer} {m c : Bytes} {n size : Nat} {granted : Nat → Bool}

theorem ofCapacity_eq_ok_iff : ofCapacity granted n = .ok b ↔
    (n ≤ maxCapacity ∧ granted n = true) ∧ b = ⟨List.replicate n 0, 0, n⟩ := by
  simp only [ofCapacity, Bool.and_eq_true, decide_eq_true_eq]
  split
  · next room => rw [Except.ok.injEq, and_iff_right room, eq_comm]
  · next none => exact iff_of_false nofun fun h => none h.1

theorem ofCapacity_of_granted (h : n ≤ maxCapacity) (given : granted n = true) :
    ofCapacity granted n = .ok ⟨List.replicate n 0, 0, n⟩ :=
  ofCapacity_eq_ok_iff.mpr ⟨⟨h, given⟩, rfl⟩

theorem toNat_le_maxCapacity (w : UInt16) : w.toNat ≤ maxCapacity := by
  have := w.toNat_lt
  unfold maxCapacity
  omega

theorem filled_replicate (n : Nat) : Filled ⟨List.replicate n 0, 0, n⟩ [] n :=
  ⟨rfl, rfl, by simp [capacity], List.nil_prefix⟩

theorem filled_of_ofCapacity (h : ofCapacity granted n = .ok b) : b.Filled [] n := by
  obtain ⟨-, rfl⟩ := ofCapacity_eq_ok_iff.mp h
  exact filled_replicate n

theorem fault_of_ofCapacity {fault : Fault} (h : ofCapacity granted n = .error fault) :
    fault = .outOfMemory n := by
  unfold ofCapacity at h
  split at h
  · simp at h
  · exact (Except.error.inj h).symm

theorem Filled.length_le (h : b.Filled m size) : m.length ≤ size := by
  have := h.written.length_le
  rwa [← capacity, h.capacity_eq] at this

theorem Filled.ordered (h : b.Filled m size) : b.Ordered :=
  ⟨by rw [h.position_eq, h.limit_eq]; exact h.length_le,
    Nat.le_of_eq (h.limit_eq.trans h.capacity_eq.symm)⟩

theorem Filled.remaining_eq (h : b.Filled m size) : b.remaining = size - m.length := by
  rw [remaining, h.limit_eq, h.position_eq]

theorem Filled.isFull_iff (h : b.Filled m size) : b.isFull = true ↔ m.length = size := by
  simp [isFull, h.position_eq, h.capacity_eq]

theorem Filled.write (h : b.Filled m size) (hc : m.length + c.length ≤ size) :
    ∃ b', b.write c = .ok b' ∧ b'.Filled (m ++ c) size := by
  have hr : c.length ≤ b.remaining := by rw [h.remaining_eq]; omega
  have hm : b.data.take b.position = m := by
    rw [h.position_eq]
    exact List.prefix_iff_eq_take.mp h.written |>.symm
  have hd : b.data.length = size := h.capacity_eq
  have hs := h.length_le
  refine ⟨_, if_pos hr, ?_, h.limit_eq, ?_, ?_⟩
  · simp [h.position_eq]
  · simp only [capacity, List.length_append, List.length_take, List.length_drop, h.position_eq, hd]
    omega
  · rw [hm]
    exact List.prefix_append _ _

theorem Filled.upToLimit_flip (h : b.Filled m size) : b.flip.upToLimit = m := by
  simp only [flip, upToLimit, h.position_eq]
  exact (List.prefix_iff_eq_take.mp h.written).symm

theorem Filled.current_flip (h : b.Filled m size) : b.flip.current = m := by
  rw [current, ← upToLimit, h.upToLimit_flip]
  rfl

/-- A buffer that holds all it has room for shows just that. -/
theorem Filled.flip_eq_ofBytes (h : b.Filled m m.length) : b.flip = ofBytes m := by
  have data : b.data = m := (h.written.eq_of_length h.capacity_eq.symm).symm
  rw [flip, ofBytes, data, h.position_eq]

theorem Ordered.flip (h : b.Ordered) : b.flip.Ordered :=
  ⟨Nat.zero_le _, Nat.le_trans h.position_le h.limit_le⟩

theorem ordered_ofBytes (m : Bytes) : (ofBytes m).Ordered :=
  ⟨Nat.zero_le _, Nat.le_refl _⟩

theorem ordered_empty : empty.Ordered := ⟨Nat.le_refl _, Nat.le_refl _⟩

@[simp] theorem current_ofBytes (m : Bytes) : (ofBytes m).current = m := by
  simp [ofBytes, current]

@[simp] theorem upToLimit_ofBytes (m : Bytes) : (ofBytes m).upToLimit = m := by
  simp [ofBytes, upToLimit]

theorem Ordered.length_current (h : b.Ordered) : b.current.length = b.remaining := by
  have := h.limit_le
  unfold capacity at this
  simp only [current, remaining, List.length_drop, List.length_take]
  omega

theorem remaining_eq_zero_iff (h : b.Ordered) : b.remaining = 0 ↔ b.current = [] := by
  rw [← h.length_current, List.length_eq_zero_iff]

theorem skip_eq_ok (h : b.skip n = .ok b') :
    n ≤ b.remaining ∧ b'.current = b.current.drop n ∧ (b.Ordered → b'.Ordered) := by
  unfold skip at h
  split at h
  · next hn =>
    obtain rfl : _ = b' := by simpa using h
    refine ⟨hn, by simp [current], fun ho => ⟨?_, ho.limit_le⟩⟩
    have := ho.position_le
    unfold remaining at hn
    simp only
    omega
  · simp at h

theorem readWord?_of_current {w : UInt16} (h : b.current = Bytes.of16 w ++ m) :
    ∃ b', b.readWord? = some (w, b') ∧ b'.current = m := by
  refine ⟨{ b with position := b.position + 2 }, ?_, ?_⟩
  · simp [readWord?, h, Bytes.read16?_of16]
  · have : b.current.drop 2 = m := by simp [h]
    simpa [current] using this

end ResolverGate.WireBuffer
