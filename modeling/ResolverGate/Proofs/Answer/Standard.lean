import ResolverGate.Answer.Standard
import ResolverGate.Proofs.Answer.Layout
import ResolverGate.Proofs.Answer.Scanning

/-! # The laws of the standard codec

Its writers append, and refuse nothing but what makes a message too long. What they write of
records can be read again: it stands where it was laid.
-/

namespace ResolverGate

namespace Answer

open Position

/-! ## Sizes -/

def Piece.size : Piece → Nat
  | octets m => m.length
  | name ls _ => ls.wireLength + 1

/-- Octets that the record takes without compression. -/
def Record.size (r : Record) : Nat := r.owner.wireLength + 1 + 10 + (r.rdata.map Piece.size).sum

/-- A writer moves on by what it writes. It needs no more than the room that `size` takes, and
takes no more. -/
structure Moves (size : Nat) (write : Position → Option (Bytes × Position)) : Prop where
  offset : ∀ {at_ m at_'}, write at_ = some (m, at_') →
    at_'.offset = at_.offset + m.length ∧ m.length ≤ size ∧
      (at_.offset ≤ Codec.maxLength → at_'.offset ≤ Codec.maxLength)
  room : ∀ at_, at_.offset + size ≤ Codec.maxLength → ∃ m at_', write at_ = some (m, at_')

variable {at_ at_' : Position} {m : Bytes} {ls : Labels} {pos stop : Nat}

theorem map_advance?_eq_some_iff {out : Bytes} :
    (at_.advance? out.length).map (out, ·) = some (m, at_') ↔
      m = out ∧ at_.offset + out.length ≤ Codec.maxLength ∧
        at_' = { at_ with offset := at_.offset + out.length } := by
  simp only [Option.map_eq_some_iff, advance?_eq_some_iff, Prod.mk.injEq]
  constructor
  · rintro ⟨_, advanced, rfl, rfl⟩
    exact ⟨rfl, advanced⟩
  · rintro ⟨rfl, advanced⟩
    exact ⟨_, advanced, rfl, rfl⟩

theorem length_layLabels {compress : Bool} {targets targets' : List (Nat × Labels)}
    (h : layLabels compress stop pos ls targets = (m, targets')) :
    m.length ≤ ls.wireLength + 1 := by
  induction ls generalizing pos targets m with
  | nil =>
    obtain ⟨rfl, rfl⟩ := Prod.mk.inj h
    exact Nat.le_refl _
  | cons l ls ih =>
    rw [Labels.wireLength_cons]
    obtain ⟨target, -, rfl, -⟩ | ⟨rest, added, rfl, hr, -⟩ := Packet.layLabels_cons h
    · rw [pointer, Bytes.length_ofNumber]
      omega
    · have := ih hr
      simp only [List.length_append, List.length_cons]
      omega

theorem moves_name (ls : Labels) (compressible : Bool) :
    Moves (ls.wireLength + 1) (writeName? · ls compressible) where
  offset := by
    intro at_ m at_' h
    simp only [writeName?] at h
    split at h
    · cases h
    cases hm : layLabels _ _ _ ls at_.targets with
    | mk out targets =>
    rw [hm] at h
    obtain ⟨rfl, fits, rfl⟩ := map_advance?_eq_some_iff.mp h
    exact ⟨rfl, length_layLabels hm, fun _ => fits⟩
  room := by
    intro at_ room
    simp only [writeName?]
    rw [if_neg (by omega)]
    cases hm : layLabels _ _ _ ls at_.targets with
    | mk out targets =>
    have short := length_layLabels hm
    refine ⟨out, _, map_advance?_eq_some_iff.mpr ⟨rfl, ?_, rfl⟩⟩
    simp only
    omega

theorem moves_piece (x : Piece) : Moves x.size (x.write? ·) := by
  cases x with
  | octets data =>
    refine ⟨fun h => ?_, fun _ room => ⟨data, _, map_advance?_eq_some_iff.mpr ⟨rfl, room, rfl⟩⟩⟩
    obtain ⟨rfl, fits, rfl⟩ := map_advance?_eq_some_iff.mp h
    exact ⟨rfl, Nat.le_refl _, fun _ => fits⟩
  | name ls compressible => exact moves_name ls compressible

theorem moves_pieces (xs : List Piece) :
    Moves (xs.map Piece.size).sum (writePieces? · xs) := by
  induction xs with
  | nil =>
    refine ⟨fun h => ?_, fun _ _ => ⟨[], _, rfl⟩⟩
    obtain ⟨rfl, rfl⟩ := Prod.mk.inj (Option.some.inj h)
    exact ⟨rfl, Nat.le_refl _, id⟩
  | cons x xs ih =>
    have each := moves_piece x
    rw [List.map_cons, List.sum_cons]
    refine ⟨fun {at_ m at_'} h => ?_, fun at_ room => ?_⟩
    · simp only [writePieces?, Option.bind_eq_bind, Option.bind_eq_some_iff, Prod.exists] at h
      obtain ⟨first, at₁, h₁, rest, at₂, h₂, hr⟩ := h
      obtain ⟨rfl, rfl⟩ := Prod.mk.inj (Option.some.inj hr)
      obtain ⟨offset₁, short₁, fits₁⟩ := each.offset h₁
      obtain ⟨offset₂, short₂, fits₂⟩ := ih.offset h₂
      rw [List.length_append]
      exact ⟨by omega, by omega, fits₂ ∘ fits₁⟩
    · obtain ⟨first, at₁, h₁⟩ := each.room at_ (by omega)
      obtain ⟨offset₁, short₁, -⟩ := each.offset h₁
      obtain ⟨rest, at₂, h₂⟩ := ih.room at₁ (by omega)
      refine ⟨first ++ rest, at₂, ?_⟩
      simp only [writePieces?, h₁, h₂, Option.bind_eq_bind, Option.bind_some, Option.pure_def]

theorem moves_record (r : Record) : Moves r.size (r.write? ·) := by
  have owner := moves_name r.owner true
  have rdata := moves_pieces r.rdata
  have fixed : (Bytes.of16 r.rtype.code ++ Bytes.of16 r.rclass ++ Bytes.of32 r.ttl).length = 8 := by
    simp
  rw [Record.size]
  refine ⟨fun {at_ m at_'} h => ?_, fun at_ room => ?_⟩
  · simp only [Record.write?, Option.bind_eq_bind, Option.bind_eq_some_iff, Prod.exists] at h
    obtain ⟨front, at₁, h₁, at₂, h₂, data, at₃, h₃, hr⟩ := h
    obtain ⟨rfl, rfl⟩ := Prod.mk.inj (Option.some.inj hr)
    obtain ⟨offset₁, short₁, -⟩ := owner.offset h₁
    obtain ⟨fits₂, rfl⟩ := advance?_eq_some_iff.mp h₂
    obtain ⟨offset₃, short₃, fits₃⟩ := rdata.offset h₃
    simp only [fixed] at offset₃
    simp only [List.length_append, Bytes.length_ofNumber] at fixed ⊢
    exact ⟨by omega, by omega, fun _ => fits₃ fits₂⟩
  · obtain ⟨front, at₁, h₁⟩ := owner.room at_ (by omega)
    obtain ⟨offset₁, short₁, -⟩ := owner.offset h₁
    have h₂ := advance?_eq_some_iff.mpr
      (⟨by omega, rfl⟩ : at₁.offset + (8 + 2) ≤ Codec.maxLength ∧ _ = _)
    obtain ⟨data, at₃, h₃⟩ := rdata.room { at₁ with offset := at₁.offset + (8 + 2) }
      (by simp only; omega)
    refine ⟨front ++ (Bytes.of16 r.rtype.code ++ Bytes.of16 r.rclass ++ Bytes.of32 r.ttl)
      ++ Bytes.ofNumber 2 data.length ++ data, at₃, ?_⟩
    simp only [Record.write?, h₁, fixed, h₂, h₃, Option.bind_eq_bind, Option.bind_some]
    rfl

/-! ## Laws -/

variable {w w' v : Writer} {r : Record} {rs : List Record} {body : Bytes}

theorem Writer.emit_eq_ok_iff : w.emit r = .ok w' ↔ ∃ m at_, r.write? w.position = some (m, at_) ∧
    w' = ⟨w.octets ++ m.toArray, at_.targets, at_.names⟩ := by
  rw [emit]
  cases h : r.write? w.position with
  | none => simp
  | some written =>
    obtain ⟨m, at_⟩ := written
    simp [eq_comm]

theorem Writer.put_eq_ok_iff {m : Bytes} : w.put m = .ok w' ↔
    w.octets.size + m.length ≤ Codec.maxLength ∧
      w' = { w with octets := w.octets ++ m.toArray } := by
  rw [put]
  split
  · next room => rw [Except.ok.injEq, and_iff_right room, eq_comm]
  · next none => exact iff_of_false nofun fun h => none h.1

theorem lawful_standard : Codec.standard.Lawful where
  fresh := rfl
  put := by
    intro w w' m h
    obtain ⟨-, rfl⟩ := Writer.put_eq_ok_iff.mp h
    simp [Codec.standard]
  emit := by
    intro w w' r h
    obtain ⟨m, at_, -, rfl⟩ := Writer.emit_eq_ok_iff.mp h
    exact ⟨m, by simp [Codec.standard]⟩

theorem roomy_standard : Codec.standard.Roomy Record.size where
  toLawful := lawful_standard
  put_iff := by
    intro w m
    refine ⟨fun ⟨w', h⟩ => (Writer.put_eq_ok_iff.mp h).1, fun room => ?_⟩
    exact ⟨_, Writer.put_eq_ok_iff.mpr ⟨room, rfl⟩⟩
  bound := by
    intro w w' r short h
    obtain ⟨m, at_, made, rfl⟩ := Writer.emit_eq_ok_iff.mp h
    obtain ⟨offset, -, fits⟩ := (moves_record r).offset made
    have size : (w.octets ++ m.toArray).toList.length = at_.offset := by
      simp [offset, Writer.position]
    exact size ▸ fits short
  room := by
    intro w r room
    obtain ⟨m, at_, made⟩ := (moves_record r).room w.position room
    refine ⟨_, Writer.emit_eq_ok_iff.mpr ⟨m, at_, made, rfl⟩, ?_⟩
    have short := ((moves_record r).offset made).2.1
    simp only [Codec.standard, Array.toList_append, List.length_append]
    omega
  size_pos r := by
    rw [Record.size]
    omega

/-! ## Records in a reply -/

theorem octets_of_emits (h : Codec.standard.Emits w rs body w') :
    w'.octets = w.octets ++ body.toArray := by
  have written := h.written
  exact Array.toList_inj.mp (by simpa [Codec.standard] using written)

/-- Of what it has written a writer uses no more than how long it is and where names stand. -/
theorem emits_of_position (h : Codec.standard.Emits w rs body w') (same : v.position = w.position) :
    ∃ v', Codec.standard.Emits v rs body v' := by
  induction h generalizing v with
  | nil => exact ⟨v, .nil⟩
  | @cons w w₁ w' r rs m body first appends _ ih =>
    obtain ⟨m', at_, made, rfl⟩ := Writer.emit_eq_ok_iff.mp first
    obtain rfl : m' = m := by simpa [Codec.standard] using appends
    have size : v.octets.size = w.octets.size := congrArg Position.offset same
    obtain ⟨v', rest⟩ := ih (v := ⟨v.octets ++ m'.toArray, at_.targets, at_.names⟩)
      (by simp [Writer.position, size])
    exact ⟨v', .cons (Writer.emit_eq_ok_iff.mpr ⟨m', at_, same ▸ made, rfl⟩)
      (by simp [Codec.standard]) rest⟩

theorem stands_of_emits (h : Codec.standard.Emits w rs body w')
    (tracks : w.position.Tracks w.octets) (valid : ∀ r ∈ rs, r.Valid) :
    Row (Record.Stands w'.octets) rs w.octets.size w'.octets.size := by
  induction h with
  | nil => exact .nil
  | @cons w w₁ w' r rs m body first _ rest ih =>
    obtain ⟨now, later⟩ := List.forall_mem_cons.mp valid
    obtain ⟨m', at_, made, rfl⟩ := Writer.emit_eq_ok_iff.mp first
    obtain ⟨tracks₁, stands⟩ := lays_record now tracks made
    have row := ih ⟨rfl, tracks₁.leads⟩ later
    rw [octets_of_emits rest] at row ⊢
    rw [← Packet.size_append] at stands
    exact .cons (stands.append _) row

theorem opening_standard {question : Bytes} (h : opening .standard question = .ok w) :
    w.position = ⟨Header.size + question.length, [], 0⟩ := by
  obtain ⟨w₁, first, second⟩ := exists_of_bind h
  change Writer.put ⟨#[], [], 0⟩ blank = .ok w₁ at first
  change Writer.put w₁ question = .ok w at second
  obtain ⟨-, rfl⟩ := Writer.put_eq_ok_iff.mp first
  obtain ⟨-, rfl⟩ := Writer.put_eq_ok_iff.mp second
  simp [Writer.position, blank]

theorem LaidOut.stands {s : Sections Record} {h : Header} {q : Question} {opt m : Bytes}
    (laidOut : LaidOut .standard s h q opt m) (valid : ∀ r ∈ s.records, r.Valid) :
    Row (Record.Stands m.toArray) s.records (Header.size + q.wire.length)
      (m.length - opt.length) := by
  obtain ⟨w, body, w', opened, emits, rfl⟩ := laidOut.octets
  let v : Writer := ⟨(h.encode ++ q.wire).toArray, [], 0⟩
  obtain ⟨v', emits⟩ := emits_of_position (v := v) emits (by
    rw [opening_standard opened]
    simp [v, Writer.position])
  have row := stands_of_emits emits ⟨rfl, by simp [v, Writer.position]⟩ valid
  rw [octets_of_emits emits] at row
  have records := row.imp fun _ _ _ stands => stands.append opt.toArray
  rw [List.length_append, Nat.add_sub_cancel]
  simpa [v] using records

theorem exists_answer {h : Header} (plain : ∀ r ∈ rs, r.Plain)
    (room : Header.size + (rs.map Record.size).sum ≤ Codec.maxLength)
    (counted : h.ancount.toNat = rs.length) (unasked : h.qdcount = 0) (unreferred : h.nscount = 0)
    (alone : h.arcount = 0) : ∃ body : Bytes,
      (h.encode ++ body).length ≤ Header.size + (rs.map Record.size).sum ∧
      Codec.standard.sections (h.encode ++ body) = .ok ⟨rs, [], []⟩ := by
  let w : Writer := ⟨h.encode.toArray, [], 0⟩
  have length : (Codec.standard.written w).length = Header.size := h.length_encode
  obtain ⟨body, w', emits, short⟩ := roomy_standard.exists_emits (w := w) (by rwa [length])
  have row := stands_of_emits emits ⟨rfl, by simp [w, Writer.position]⟩
    fun r hr => (plain r hr).valid
  have octets : w'.octets = (h.encode ++ body).toArray := by
    rw [octets_of_emits emits, List.append_toArray]
  have size : w.octets.size = Header.size := length
  rw [octets, size] at row
  have sections := readSections_of_plain plain row (Nat.le_refl _) counted unasked unreferred alone
  refine ⟨body, by simpa using short, ?_⟩
  simp only [Codec.standard, Header.read?_encode, sections]
  rfl

end Answer

end ResolverGate
