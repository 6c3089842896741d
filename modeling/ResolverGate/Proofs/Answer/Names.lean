import ResolverGate.Answer.Compression
import ResolverGate.Proofs.Message.Grammar

/-! # Names in packets

A name may go on elsewhere in its packet. What is spelled at a place says so without
reading it; the reader accepts exactly that, and it stays when the packet grows.
-/

namespace ResolverGate

namespace Answer

namespace Packet

/-! ## Octets -/

/-- The octets `m` stand in the packet from `pos` on. -/
def Holds (p : Packet) (pos : Nat) (m : Bytes) : Prop := m <+: p.toList.drop pos

variable {p : Packet} {m m' : Bytes} {b : UInt8} {pos size : Nat}

theorem holds_append_iff :
    p.Holds pos (m ++ m') ↔ p.Holds pos m ∧ p.Holds (pos + m.length) m' := by
  have behind {rest : Bytes} (h : m ++ rest = p.toList.drop pos) :
      p.toList.drop (pos + m.length) = rest := by
    rw [← List.drop_drop, ← h, List.drop_left]
  constructor
  · rintro ⟨rest, h⟩
    rw [List.append_assoc] at h
    exact ⟨⟨m' ++ rest, h⟩, ⟨rest, (behind h).symm⟩⟩
  · rintro ⟨⟨rest, h⟩, ⟨rest', h'⟩⟩
    exact ⟨rest', by rw [List.append_assoc, h', behind h, h]⟩

theorem holds_cons_iff : p.Holds pos (b :: m) ↔ p.Holds pos [b] ∧ p.Holds (pos + 1) m :=
  holds_append_iff (m := [b])

theorem Holds.append (h : p.Holds pos m) (q : Packet) : (p ++ q).Holds pos m := by
  rw [Holds, Array.toList_append, List.drop_append]
  exact h.trans (List.prefix_append _ _)

theorem holds_singleton_iff : p.Holds pos [b] ↔ p[pos]? = some b := by
  rw [Holds, ← Array.getElem?_toList, ← List.head?_drop]
  cases p.toList.drop pos with
  | nil => simp
  | cons c rest => simp [List.cons_prefix_cons, eq_comm]

theorem slice?_eq_some_iff :
    p.slice? pos size = some m ↔ m.length = size ∧ pos + size ≤ p.size ∧ p.Holds pos m := by
  have cut : (p.extract pos (pos + size)).toList = (p.toList.drop pos).take size := by
    simp [List.extract_eq_take_drop]
  rw [slice?, cut, Option.ite_none_right_eq_some, Option.some_inj, Holds, List.prefix_iff_eq_take]
  constructor
  · rintro ⟨fits, rfl⟩
    have length : ((p.toList.drop pos).take size).length = size := by
      rw [List.length_take, List.length_drop, Array.length_toList]
      omega
    exact ⟨length, fits, by rw [length]⟩
  · rintro ⟨rfl, fits, h⟩
    exact ⟨fits, h.symm⟩

theorem holds_behind (p : Packet) (m : Bytes) : (p ++ m.toArray).Holds p.size m := by
  refine ⟨[], ?_⟩
  rw [List.append_nil, Array.toList_append, ← p.length_toList, List.drop_left]

theorem Holds.fits (h : p.Holds pos m) (nonempty : m ≠ []) : pos + m.length ≤ p.size := by
  have inside := List.IsPrefix.length_le h
  have positive := List.length_pos_iff.mpr nonempty
  rw [List.length_drop, p.length_toList] at inside
  omega

/-! ## Names -/

/-- The labels `ls`, or the last of them, are spelled at `pos`, and what stands there ends
at `stop`. Behind the labels stands the root octet, or a pointer to where the rest of them
is spelled. All this stands before `fence`, if there is one, and a pointer leads to before
`start`, where this piece of the name begins. -/
inductive Spells (p : Packet) : (fence : Option Nat) → (start pos : Nat) → Labels →
    (stop : Nat) → Prop
  | root {fence : Option Nat} {start pos : Nat} (before : ∀ f ∈ fence, pos < f)
      (h : p.Holds pos [0]) : Spells p fence start pos [] (pos + 1)
  | label {fence : Option Nat} {start pos stop : Nat} {l : Bytes} {ls : Labels}
      (before : ∀ f ∈ fence, pos < f) (h : p.Holds pos (UInt8.ofNat l.length :: l))
      (positive : 0 < l.length) (short : l.length < 64)
      (rest : Spells p fence start (pos + 1 + l.length) ls stop) :
      Spells p fence start pos (l :: ls) stop
  | pointer {fence : Option Nat} {start pos target stop : Nat} {ls : Labels}
      (before : ∀ f ∈ fence, pos < f) (h : p.Holds pos (pointer target))
      (small : target < 0x4000) (back : target < start)
      (rest : Spells p (some start) target target ls stop) :
      Spells p fence start pos ls (pos + 2)

variable {fence : Option Nat} {start stop room target : Nat} {ls : Labels} {l : Bytes}

theorem pointer_eq_iff {high low : UInt8} (small : target < 0x4000) :
    pointer target = [high, low] ↔
      192 ≤ high.toNat ∧ target = (high.toNat - 192) * 256 + low.toNat := by
  have number : Bytes.toNumber (pointer target) = 0xC000 + target := by
    rw [pointer, Bytes.toNumber_ofNumber]
    exact Nat.mod_eq_of_lt (by simp only [Bytes.bound]; omega)
  have spelled : Bytes.toNumber [high, low] = high.toNat * 256 + low.toNat := by
    simp [Bytes.toNumber]
  have := low.toNat_lt
  constructor
  · intro h
    rw [h, spelled] at number
    omega
  · rintro ⟨marked, h⟩
    have same : 0xC000 + target = Bytes.toNumber [high, low] := by omega
    rw [pointer, same]
    exact Bytes.ofNumber_toNumber [high, low]

theorem filter_fence_eq_none : fence.filter (· ≤ pos) = none ↔ ∀ f ∈ fence, pos < f := by
  simp [Option.filter_eq_none_iff]

theorem name_cases (h : p.name fence start pos room = (.ok ls, stop)) :
    (∀ f ∈ fence, pos < f) ∧
      ((p.Holds pos [0] ∧ ls = [] ∧ stop = pos + 1) ∨
        (∃ l rest, ls = l :: rest ∧ p.Holds pos (UInt8.ofNat l.length :: l) ∧ 0 < l.length ∧
          l.length < 64 ∧ l.length + 1 ≤ room ∧
          p.name fence start (pos + 1 + l.length) (room - (l.length + 1)) = (.ok rest, stop)) ∨
        ∃ target < start, target < 0x4000 ∧ p.Holds pos (Answer.pointer target) ∧
          stop = pos + 2 ∧ (p.name (some start) target target room).1 = .ok ls) := by
  rw [name] at h
  split at h
  · simp at h
  next before =>
  refine ⟨filter_fence_eq_none.mp before, ?_⟩
  split at h
  · simp at h
  next len hp =>
  rw [← holds_singleton_iff] at hp
  split at h
  · next root =>
    obtain ⟨rfl, rfl⟩ : [] = ls ∧ pos + 1 = stop := by simpa using h
    exact .inl ⟨root ▸ hp, rfl, rfl⟩
  next nonzero =>
  split at h
  · next short =>
    simp only at h
    split at h
    · simp at h
    next l hs =>
    obtain ⟨length, -, hl⟩ := slice?_eq_some_iff.mp hs
    split at h
    · next fits =>
      obtain ⟨hr, rfl⟩ := Prod.mk.inj h
      cases rest : (p.name fence start (pos + 1 + len.toNat) (room - (len.toNat + 1))).1 with
      | error => simp [rest, Except.map] at hr
      | ok labels =>
      obtain rfl : l :: labels = ls := by simpa [rest, Except.map] using hr
      have positive : 0 < len.toNat := by
        rw [Nat.pos_iff_ne_zero]
        exact fun h => nonzero (UInt8.toNat_inj.mp h)
      refine .inr (.inl ⟨l, labels, rfl, ?_, length ▸ positive, length ▸ short, length ▸ fits, ?_⟩)
      · rw [length, UInt8.ofNat_toNat]
        exact holds_cons_iff.mpr ⟨hp, hl⟩
      · rw [length]
        exact Prod.ext rest rfl
    · simp at h
  split at h
  · next marked =>
    split at h
    · simp at h
    next low hlow =>
    rw [← holds_singleton_iff] at hlow
    simp only at h
    split at h
    · next back =>
      obtain ⟨hr, rfl⟩ := Prod.mk.inj h
      have small : (len.toNat - 192) * 256 + low.toNat < 0x4000 := by
        have := len.toNat_lt
        have := low.toNat_lt
        omega
      refine .inr (.inr ⟨_, back, small, ?_, rfl, hr⟩)
      rw [(pointer_eq_iff small).mpr ⟨marked, rfl⟩]
      exact holds_cons_iff.mpr ⟨hp, hlow⟩
    · simp at h
  · simp at h

/-- What the reader of names finds is spelled there. -/
theorem spells_of_name {fence : Option Nat} {start pos room stop : Nat} {ls : Labels}
    (h : p.name fence start pos room = (.ok ls, stop)) :
    p.Spells fence start pos ls stop ∧ ls.wireLength ≤ room := by
  -- As the reader does: a label takes room, and a pointer leads further in front.
  obtain ⟨before, ⟨root, rfl, rfl⟩ | ⟨l, rest, rfl, label, positive, short, fits, hr⟩ |
    ⟨target, back, small, hp, rfl, hr⟩⟩ := name_cases h
  · exact ⟨.root before root, Nat.zero_le _⟩
  · obtain ⟨spelled, size⟩ := spells_of_name hr
    refine ⟨.label before label positive short spelled, ?_⟩
    rw [Labels.wireLength_cons]
    omega
  · obtain ⟨spelled, size⟩ := spells_of_name (Prod.ext hr rfl)
    exact ⟨.pointer before hp small back spelled, size⟩
termination_by (start, room)

/-- The reader of names finds what is spelled, if it is not too long. -/
theorem Spells.name_eq (h : p.Spells fence start pos ls stop) (small : ls.wireLength ≤ room) :
    p.name fence start pos room = (.ok ls, stop) := by
  induction h generalizing room with
  | root before h =>
    rw [name, filter_fence_eq_none.mpr before, holds_singleton_iff.mp h]
    simp
  | @label fence start pos stop l ls before h positive short rest ih =>
    obtain ⟨head, tail⟩ := holds_cons_iff.mp h
    have hlen := Labels.toNat_length short
    have hs := slice?_eq_some_iff.mpr ⟨rfl, tail.fits (List.ne_nil_of_length_pos positive), tail⟩
    rw [Labels.wireLength_cons] at small
    rw [name, filter_fence_eq_none.mpr before, holds_singleton_iff.mp head]
    simp only
    rw [if_neg (Labels.ofNat_length_ne_zero positive short), if_pos (by omega), hlen, hs]
    simp only
    rw [dif_pos (by omega), ih (by omega)]
    rfl
  | @pointer fence start pos target stop ls before h below back rest ih =>
    obtain ⟨high, low, octets⟩ : ∃ high low, Answer.pointer target = [high, low] :=
      ⟨_, _, rfl⟩
    obtain ⟨marked, ht⟩ := (pointer_eq_iff below).mp octets
    obtain ⟨hhigh, hlow⟩ := holds_cons_iff.mp (octets ▸ h)
    have nonzero : high ≠ 0 := by
      rintro rfl
      simp at marked
    rw [name, filter_fence_eq_none.mpr before, holds_singleton_iff.mp hhigh]
    simp only
    rw [if_neg nonzero, if_neg (by omega), if_pos marked, holds_singleton_iff.mp hlow]
    simp only
    rw [← ht, dif_pos back, ih small]

theorem name_eq_ok_iff : p.name fence start pos room = (.ok ls, stop) ↔
    p.Spells fence start pos ls stop ∧ ls.wireLength ≤ room :=
  ⟨spells_of_name, fun ⟨h, small⟩ => h.name_eq small⟩

theorem Spells.valid (h : p.Spells fence start pos ls stop) : ls.Valid := by
  induction h with
  | root => simp [Labels.Valid]
  | label _ _ positive short _ ih => exact Labels.valid_cons.mpr ⟨⟨positive, short⟩, ih⟩
  | pointer _ _ _ _ _ ih => exact ih

theorem Spells.lt_stop (h : p.Spells fence start pos ls stop) : pos < stop := by
  induction h with
  | root => exact Nat.lt_succ_self _
  | label _ _ _ _ _ ih => omega
  | pointer => omega

theorem Spells.append (h : p.Spells fence start pos ls stop) (q : Packet) :
    (p ++ q).Spells fence start pos ls stop := by
  induction h with
  | root before h => exact .root before (h.append q)
  | label before h positive short _ ih => exact .label before (h.append q) positive short ih
  | pointer before h small back _ ih => exact .pointer before (h.append q) small back ih

end Packet

end Answer

end ResolverGate
