import Mathlib.Algebra.GroupWithZero.Nat
import ResolverGate.Answer.Layout
import ResolverGate.Proofs.Outcomes

/-! # Records one behind the other

What a writer holds after some records, and when it takes them all. Only the laws of the
codec are used.
-/

namespace ResolverGate

namespace Answer

variable {R W : Type}

namespace Codec

/-- From `w` to `w'`, the records are written one behind the other, as `body`. -/
inductive Emits (codec : Codec R W) : W → List R → (body : Bytes) → W → Prop
  | nil {w : W} : Emits codec w [] [] w
  | cons {w w₁ w' : W} {r : R} {rs : List R} {m body : Bytes} (first : codec.emit w r = .ok w₁)
      (appends : codec.written w₁ = codec.written w ++ m) (rest : Emits codec w₁ rs body w') :
      Emits codec w (r :: rs) (m ++ body) w'

variable {codec : Codec R W} {w w' : W} {rs others : List R} {body : Bytes} {size : R → Nat}

theorem Emits.body_of_nil (h : codec.Emits w [] body w') : body = [] := by
  cases h
  rfl

theorem Emits.written (h : codec.Emits w rs body w') :
    codec.written w' = codec.written w ++ body := by
  induction h with
  | nil => simp
  | cons _ appends _ ih => rw [ih, appends, List.append_assoc]

theorem Emits.foldlM (h : codec.Emits w rs body w') : rs.foldlM codec.emit w = .ok w' := by
  induction h with
  | nil => rfl
  | cons first _ _ ih => rwa [List.foldlM_cons, first]

theorem Emits.of_append (h : codec.Emits w (rs ++ others) body w') :
    ∃ front w₁ back, codec.Emits w rs front w₁ ∧ codec.Emits w₁ others back w' := by
  induction rs generalizing w body with
  | nil => exact ⟨[], w, body, .nil, h⟩
  | cons r rs ih =>
    cases h with
    | cons first appends rest =>
      obtain ⟨front, w₁, back, emits, remains⟩ := ih rest
      exact ⟨_, w₁, back, .cons first appends emits, remains⟩

theorem Lawful.emits (lawful : codec.Lawful) (h : rs.foldlM codec.emit w = .ok w') :
    ∃ body, codec.Emits w rs body w' := by
  induction rs generalizing w with
  | nil =>
    obtain rfl := Except.ok.inj h
    exact ⟨[], .nil⟩
  | cons r rs ih =>
    rw [List.foldlM_cons] at h
    obtain ⟨w₁, first, h⟩ := exists_of_bind h
    obtain ⟨m, appends⟩ := lawful.emit first
    obtain ⟨body, rest⟩ := ih h
    exact ⟨m ++ body, .cons first appends.symm rest⟩

theorem Roomy.exists_emits (roomy : codec.Roomy size)
    (room : (codec.written w).length + (rs.map size).sum ≤ maxLength) :
    ∃ body w', codec.Emits w rs body w' ∧ body.length ≤ (rs.map size).sum := by
  induction rs generalizing w with
  | nil => exact ⟨[], w, .nil, Nat.le_refl 0⟩
  | cons r rs ih =>
    rw [List.map_cons, List.sum_cons] at room ⊢
    obtain ⟨w₁, first, short⟩ := roomy.room (w := w) (r := r) (by omega)
    obtain ⟨m, appends⟩ := roomy.emit first
    obtain ⟨body, w', rest, le⟩ := ih (w := w₁) (by omega)
    refine ⟨m ++ body, w', .cons first appends.symm rest, ?_⟩
    rw [← appends, List.length_append] at short
    rw [List.length_append]
    omega

theorem Roomy.length_le_of_emits (roomy : codec.Roomy size) (h : codec.Emits w rs body w')
    (short : (codec.written w).length ≤ maxLength) : (codec.written w').length ≤ maxLength := by
  induction h with
  | nil => exact short
  | cons first _ _ ih => exact ih (roomy.bound short first)

theorem Roomy.length_le_sum (roomy : codec.Roomy size) (rs : List R) :
    rs.length ≤ (rs.map size).sum := by
  induction rs with
  | nil => exact Nat.le_refl 0
  | cons r rs ih =>
    have := roomy.size_pos r
    rw [List.map_cons, List.sum_cons, List.length_cons]
    omega

end Codec

open Codec

variable {codec : Codec R W} {size : R → Nat} {w w' : W} {rs fewer : List R}
  {question body opt m : Bytes}

/-! ## What stands in a reply -/

theorem written_of_opening (lawful : codec.Lawful) (h : opening codec question = .ok w) :
    codec.written w = blank ++ question := by
  obtain ⟨w₁, first, rest⟩ := exists_of_bind h
  rw [lawful.put rest, lawful.put first, lawful.fresh, List.nil_append]

theorem lay_eq_ok_iff : lay codec question rs opt = .ok m ↔
    ∃ w w', opening codec question = .ok w ∧ rs.foldlM codec.emit w = .ok w' ∧
      (opt = [] ∧ codec.written w' = m ∨
        opt ≠ [] ∧ ∃ w'', codec.put w' opt = .ok w'' ∧ codec.written w'' = m) := by
  constructor
  · intro h
    obtain ⟨w, opened, h⟩ := exists_of_bind h
    obtain ⟨w', emitted, h⟩ := exists_of_bind h
    refine ⟨w, w', opened, emitted, ?_⟩
    split at h
    · next none => exact .inl ⟨List.isEmpty_iff.mp none, Except.ok.inj h⟩
    · next some =>
      obtain ⟨w'', put, h⟩ := exists_of_bind h
      exact .inr ⟨mt List.isEmpty_iff.mpr some, w'', put, Except.ok.inj h⟩
  · rintro ⟨w, w', opened, emitted, ending⟩
    simp only [lay, opened, bind, Except.bind, emitted]
    obtain ⟨rfl, rfl⟩ | ⟨some, w'', put, rfl⟩ := ending
    · rfl
    · rw [if_neg (mt List.isEmpty_iff.mp some), put]
      rfl

theorem exists_of_lay (lawful : codec.Lawful) (h : lay codec question rs opt = .ok m) :
    ∃ w body w', opening codec question = .ok w ∧ codec.Emits w rs body w' ∧
      m = blank ++ question ++ body ++ opt := by
  obtain ⟨w, w', opened, emitted, ending⟩ := lay_eq_ok_iff.mp h
  obtain ⟨body, emits⟩ := lawful.emits emitted
  have written := emits.written
  rw [written_of_opening lawful opened] at written
  refine ⟨w, body, w', opened, emits, ?_⟩
  obtain ⟨rfl, rfl⟩ | ⟨-, w'', put, rfl⟩ := ending
  · rw [written, List.append_nil]
  · rw [lawful.put put, written]

theorem length_le_of_lay (roomy : codec.Roomy size) (h : lay codec question rs opt = .ok m) :
    m.length ≤ maxLength := by
  obtain ⟨w, w', opened, emitted, ending⟩ := lay_eq_ok_iff.mp h
  obtain ⟨w₁, -, put⟩ := exists_of_bind opened
  have short := roomy.put_iff.mp ⟨w, put⟩
  rw [← List.length_append, ← roomy.put put] at short
  obtain ⟨body, emits⟩ := roomy.emits emitted
  obtain ⟨-, rfl⟩ | ⟨-, w'', put, rfl⟩ := ending
  · exact roomy.length_le_of_emits emits short
  · have fits := roomy.put_iff.mp ⟨w'', put⟩
    rwa [← List.length_append, ← roomy.put put] at fits

theorem exists_lay_of_emits (roomy : codec.Roomy size) (opened : opening codec question = .ok w)
    (emits : codec.Emits w rs body w')
    (room : opt = [] ∨ (codec.written w').length + opt.length ≤ maxLength) :
    ∃ m, lay codec question rs opt = .ok m := by
  by_cases none : opt = []
  · exact ⟨_, lay_eq_ok_iff.mpr ⟨w, w', opened, emits.foldlM, .inl ⟨none, rfl⟩⟩⟩
  · obtain ⟨w'', put⟩ := roomy.put_iff.mpr (room.resolve_left none)
    exact ⟨_, lay_eq_ok_iff.mpr ⟨w, w', opened, emits.foldlM, .inr ⟨none, w'', put, rfl⟩⟩⟩

theorem exists_lay_of_fewer (roomy : codec.Roomy size) (less : fewer <+: rs)
    (h : lay codec question rs opt = .ok m) : ∃ m, lay codec question fewer opt = .ok m := by
  obtain ⟨others, rfl⟩ := less
  obtain ⟨w, w', opened, emitted, ending⟩ := lay_eq_ok_iff.mp h
  obtain ⟨body, emits⟩ := roomy.emits emitted
  obtain ⟨front, w₁, back, first, rest⟩ := emits.of_append
  refine exists_lay_of_emits roomy opened first (ending.imp And.left ?_)
  rintro ⟨-, w'', put, -⟩
  have room := roomy.put_iff.mp ⟨w'', put⟩
  rw [rest.written, List.length_append] at room
  omega

/-- Records can be laid if there is room for them with nothing left out. -/
theorem exists_lay_of_room (roomy : codec.Roomy size)
    (room : Header.size + question.length + (rs.map size).sum + opt.length ≤ maxLength) :
    ∃ m, lay codec question rs opt = .ok m := by
  have length : blank.length = Header.size := List.length_replicate
  obtain ⟨w₁, first⟩ := roomy.put_iff.mpr
    (show (codec.written codec.fresh).length + blank.length ≤ maxLength by
      rw [roomy.fresh, length, List.length_nil]
      omega)
  have written₁ : codec.written w₁ = blank := by rw [roomy.put first, roomy.fresh, List.nil_append]
  obtain ⟨w, second⟩ := roomy.put_iff.mpr
    (show (codec.written w₁).length + question.length ≤ maxLength by
      rw [written₁, length]
      omega)
  have opened : opening codec question = .ok w := by
    rw [opening, first]
    exact second
  have written := written_of_opening roomy.toLawful opened
  have free : (codec.written w).length + (rs.map size).sum ≤ maxLength := by
    rw [written, List.length_append, length]
    omega
  obtain ⟨body, w', emits, short⟩ := roomy.exists_emits free
  refine exists_lay_of_emits roomy opened emits (.inr ?_)
  rw [emits.written, written, List.length_append, List.length_append, length]
  omega

end Answer

end ResolverGate
