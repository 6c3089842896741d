import ResolverGate.Proofs.Answer.Names

/-! # Writing with compression

Whatever the writer lays down is spelled where it was laid, though it may lean on names
that stand further in front. One invariant carries it: the places that the writer
remembers lead to the labels it remembers them for.
-/

namespace ResolverGate

namespace Answer

namespace Packet

variable {p : Packet} {pos stop target : Nat} {ls : Labels} {l : Bytes}

/-! ## Names -/

/-- A pointer to `target` from behind the packet reads as `ls`. -/
structure Leads (p : Packet) (target : Nat) (ls : Labels) : Prop where
  small : target < 0x4000
  inside : target < p.size
  spells : ∃ stop, ∀ fence : Option Nat, (∀ f ∈ fence, p.size ≤ f) →
    p.Spells fence target target ls stop

theorem Leads.append (h : p.Leads target ls) (q : Packet) : (p ++ q).Leads target ls := by
  have grows : p.size ≤ (p ++ q).size := by simp
  obtain ⟨stop, spells⟩ := h.spells
  refine ⟨h.small, Nat.lt_of_lt_of_le h.inside grows, stop, fun fence hf => ?_⟩
  exact (spells fence fun f hm => Nat.le_trans grows (hf f hm)).append q

theorem mem_of_target? {targets : List (Nat × Labels)}
    (h : Position.target? targets ls = some target) : (target, ls) ∈ targets := by
  obtain ⟨t, ht, rfl⟩ := Option.map_eq_some_iff.mp h
  obtain rfl : t.2 = ls := by simpa using List.find?_some ht
  exact List.mem_of_find?_eq_some ht

theorem layLabels_cons {compress : Bool} {out : Bytes} {targets targets' : List (Nat × Labels)}
    (h : layLabels compress stop pos (l :: ls) targets = (out, targets')) :
    (∃ target, (target, l :: ls) ∈ targets ∧ out = Answer.pointer target ∧ targets' = targets) ∨
      ∃ m added, out = UInt8.ofNat l.length :: l ++ m ∧
        layLabels compress stop (pos + 1 + l.length) ls added = (m, targets') ∧
        ∀ t ∈ added, t ∈ targets ∨ stop < Position.targetEnd ∧ t = (pos, l :: ls) := by
  rw [layLabels] at h
  split at h
  · next target ht =>
    obtain ⟨rfl, rfl⟩ := Prod.mk.inj h
    exact .inl ⟨target, mem_of_target? (Option.ite_none_right_eq_some.mp ht).2, rfl, rfl⟩
  · obtain ⟨rfl, rfl⟩ := Prod.mk.inj h
    refine .inr ⟨_, _, rfl, rfl, fun t ht => ?_⟩
    split at ht
    · next small =>
      exact (List.mem_append.mp ht).imp_right fun h => ⟨small.1, List.mem_singleton.mp h⟩
    · exact .inl ht

/-- Labels laid down behind `p`, or behind the first labels of their name, are spelled
there. What they can be pointed to by was known before or leads to them. -/
theorem spells_of_layLabels {compress : Bool} {out : Bytes} {targets targets' : List (Nat × Labels)}
    (h : layLabels compress stop pos ls targets = (out, targets'))
    (valid : ls.Valid) (room : pos + ls.wireLength ≤ stop) (behind : p.size ≤ pos)
    (leads : ∀ t ∈ targets, t.2.length ≤ ls.length → p.Leads t.1 t.2)
    {q : Packet} (holds : (p ++ q).Holds pos out) :
    (∀ fence start, (∀ f ∈ fence, pos + out.length ≤ f) → p.size ≤ start →
        (p ++ q).Spells fence start pos ls (pos + out.length)) ∧
      ∀ t ∈ targets', t ∈ targets ∨ (p ++ q).Leads t.1 t.2 := by
  induction ls generalizing pos targets out targets' with
  | nil =>
    obtain ⟨rfl, rfl⟩ := Prod.mk.inj h
    exact ⟨fun _ _ before _ => .root before holds, fun _ => .inl⟩
  | cons l ls ih =>
    obtain ⟨target, known, rfl, rfl⟩ | ⟨m, added, rfl, hm, new⟩ := layLabels_cons h
    · obtain ⟨small, inside, _, spells⟩ := leads _ known (Nat.le_refl _)
      refine ⟨fun fence start before hs => ?_, fun _ => .inl⟩
      refine .pointer (fun f hf => Nat.lt_of_succ_le (Nat.le_of_succ_le (before f hf))) holds small
        (Nat.lt_of_lt_of_le inside hs) ((spells (some start) ?_).append q)
      rintro _ ⟨⟩
      exact hs
    · obtain ⟨⟨positive, short⟩, valid⟩ := Labels.valid_cons.mp valid
      rw [Labels.wireLength_cons] at room
      have fits := holds.fits (by simp)
      obtain ⟨label, tail⟩ := holds_append_iff.mp holds
      obtain ⟨stop', hstop⟩ : ∃ stop', stop' = pos + 1 + l.length + m.length := ⟨_, rfl⟩
      have length : pos + (UInt8.ofNat l.length :: l ++ m).length = stop' := by
        simp only [List.length_append, List.length_cons]
        omega
      rw [List.length_cons, Nat.add_comm l.length, ← Nat.add_assoc] at tail
      rw [length] at fits ⊢
      -- A place in this name is no target for the shorter rest of it.
      have shorter : ∀ t ∈ added, t.2.length ≤ ls.length → p.Leads t.1 t.2 := by
        intro t ht hl
        obtain known | ⟨-, rfl⟩ := new t ht
        · exact leads t known (Nat.le_succ_of_le hl)
        · exact absurd hl (Nat.not_succ_le_self _)
      obtain ⟨spells, later⟩ := ih hm valid (by omega) (by omega) shorter tail
      rw [← hstop] at spells
      have whole (fence : Option Nat) (start : Nat) (before : ∀ f ∈ fence, stop' ≤ f)
          (hs : p.size ≤ start) : (p ++ q).Spells fence start pos (l :: ls) stop' :=
        .label (fun f hf => by have := before f hf; omega) label positive short
          (spells fence start before hs)
      refine ⟨whole, fun t ht => ?_⟩
      obtain ht | leads := later t ht
      · obtain known | ⟨small, rfl⟩ := new t ht
        · exact .inl known
        · rw [Position.targetEnd] at small
          exact .inr ⟨by simp only; omega, by simp only; omega, stop', fun fence before =>
            whole fence pos (fun f hf => Nat.le_trans fits (before f hf)) behind⟩
      · exact .inr leads

end Packet

open Packet

theorem Packet.append_append (p : Packet) (m m' : Bytes) :
    p ++ m.toArray ++ m'.toArray = p ++ (m ++ m').toArray := by simp

theorem Packet.size_append (p : Packet) (m : Bytes) :
    (p ++ m.toArray).size = p.size + m.length := by simp

/-! ## Positions -/

/-- What a writer knows of the message so far: how long it is, and where names stand in it
that can be pointed to. -/
structure Position.Tracks (at_ : Position) (p : Packet) : Prop where
  offset : at_.offset = p.size
  leads : ∀ t ∈ at_.targets, p.Leads t.1 t.2

variable {at_ at_' : Position} {p q : Packet} {m : Bytes} {ls : Labels} {pos stop : Nat}

theorem Position.advance?_eq_some_iff {size : Nat} : at_.advance? size = some at_' ↔
    at_.offset + size ≤ Codec.maxLength ∧ at_' = { at_ with offset := at_.offset + size } := by
  rw [advance?, Option.ite_none_right_eq_some, Option.some_inj, eq_comm (b := at_')]

theorem Position.Tracks.advance (tracks : at_.Tracks p)
    (h : at_.advance? m.length = some at_') : at_'.Tracks (p ++ m.toArray) := by
  obtain ⟨-, rfl⟩ := advance?_eq_some_iff.mp h
  exact ⟨by simp [tracks.offset], fun t ht => (tracks.leads t ht).append _⟩

/-- A writer lays down what `stands` says, wherever the message being written stands, and
knows of the longer message what it knew of the shorter one. -/
def Lays (stands : Packet → Nat → Nat → Prop) (write : Position → Option (Bytes × Position)) :
    Prop :=
  ∀ ⦃at_ : Position⦄ ⦃p : Packet⦄ ⦃m : Bytes⦄ ⦃at_' : Position⦄, at_.Tracks p →
    write at_ = some (m, at_') →
      at_'.Tracks (p ++ m.toArray) ∧ stands (p ++ m.toArray) p.size (p.size + m.length)

theorem lays_name (valid : ls.Valid) (compressible : Bool) :
    Lays (fun p pos stop => p.Spells none pos pos ls stop) (writeName? · ls compressible) := by
  intro at_ p m at_' tracks h
  simp only [writeName?] at h
  split at h
  · simp at h
  generalize compress : (compressible && decide (at_.names < Position.maxNames)) = c at h
  cases hm : layLabels c (at_.offset + ls.wireLength) at_.offset ls at_.targets with
  | mk out targets =>
  rw [hm] at h
  obtain ⟨_, ha, hr⟩ := Option.map_eq_some_iff.mp h
  obtain ⟨rfl, rfl⟩ := Prod.mk.inj hr
  obtain ⟨-, rfl⟩ := Position.advance?_eq_some_iff.mp ha
  rw [tracks.offset] at hm
  obtain ⟨spells, leads⟩ := spells_of_layLabels hm valid (Nat.le_refl _) (Nat.le_refl _)
    (fun t ht _ => tracks.leads t ht) (p.holds_behind out)
  refine ⟨⟨by simp [tracks.offset], fun t ht => ?_⟩, spells none p.size (by simp) (Nat.le_refl _)⟩
  exact (leads t ht).elim (fun known => (tracks.leads t known).append _) id

/-! ## Records -/

inductive Row {α : Type} (stands : α → Nat → Nat → Prop) : List α → (pos stop : Nat) → Prop
  | nil {pos : Nat} : Row stands [] pos pos
  | cons {a : α} {as : List α} {pos mid stop : Nat} (first : stands a pos mid)
      (rest : Row stands as mid stop) : Row stands (a :: as) pos stop

section Row

variable {α : Type} {stands stands' : α → Nat → Nat → Prop} {as : List α}

theorem Row.eq_of_nil (h : Row stands [] pos stop) : pos = stop := by
  cases h
  rfl

theorem Row.imp (h : Row stands as pos stop)
    (step : ∀ ⦃a pos stop⦄, stands a pos stop → stands' a pos stop) : Row stands' as pos stop := by
  induction h with
  | nil => exact .nil
  | cons first _ ih => exact .cons (step first) ih

theorem Row.le_stop (h : Row stands as pos stop) (size : Nat)
    (step : ∀ ⦃a pos stop⦄, stands a pos stop → pos + size ≤ stop) :
    pos + as.length * size ≤ stop := by
  induction h with
  | nil => simp
  | cons first _ ih =>
    have := step first
    rw [List.length_cons, Nat.succ_mul]
    omega

end Row

def Piece.Stands (p : Packet) : Piece → (pos stop : Nat) → Prop
  | octets m, pos, stop => p.Holds pos m ∧ stop = pos + m.length
  | name ls _, pos, stop => p.Spells none pos pos ls stop

def Piece.Valid : Piece → Prop
  | octets _ => True
  | name ls _ => ls.Valid

/-- The record stands in the packet from `pos` to `stop`: its owner, its type, class and
lifetime, and its data behind their length. -/
inductive Record.Stands (p : Packet) (r : Record) (pos stop : Nat) : Prop
  | intro {front : Nat} (owner : p.Spells none pos pos r.owner front)
      (fixed : p.Holds front (Bytes.of16 r.rtype.code ++ Bytes.of16 r.rclass ++ Bytes.of32 r.ttl
        ++ Bytes.ofNumber 2 (stop - (front + 10))))
      (rdata : Row (Piece.Stands p) r.rdata (front + 10) stop) : Stands p r pos stop

structure Record.Valid (r : Record) : Prop where
  owner : r.owner.Valid
  rdata : ∀ x ∈ r.rdata, x.Valid

theorem Piece.Stands.append {x : Piece} (h : x.Stands p pos stop) (q : Packet) :
    x.Stands (p ++ q) pos stop := by
  cases x with
  | octets m => exact ⟨h.1.append q, h.2⟩
  | name ls compressible => exact Spells.append h q

theorem Piece.Stands.le_stop {x : Piece} (h : x.Stands p pos stop) : pos ≤ stop := by
  cases x with
  | octets m => exact h.2 ▸ Nat.le_add_right _ _
  | name ls compressible => exact Nat.le_of_lt (Spells.lt_stop h)

theorem Record.Stands.append {r : Record} (h : r.Stands p pos stop) (q : Packet) :
    r.Stands (p ++ q) pos stop := by
  obtain ⟨owner, fixed, rdata⟩ := h
  exact .intro (owner.append q) (fixed.append q) (rdata.imp fun _ _ _ h => h.append q)

theorem Record.Stands.length {r : Record} (h : r.Stands p pos stop) : pos + 11 ≤ stop := by
  obtain ⟨owner, -, rdata⟩ := h
  have := owner.lt_stop
  have := rdata.le_stop 0 fun _ _ _ h => h.le_stop
  omega

theorem lays_piece {x : Piece} (valid : x.Valid) : Lays (Piece.Stands · x) (x.write? ·) := by
  cases x with
  | octets m =>
    intro at_ p m' at_' tracks h
    obtain ⟨at₁, ha, hr⟩ := Option.map_eq_some_iff.mp h
    obtain ⟨rfl, rfl⟩ := Prod.mk.inj hr
    exact ⟨tracks.advance ha, p.holds_behind m, rfl⟩
  | name ls compressible => exact lays_name valid compressible

theorem lays_pieces {xs : List Piece} (valid : ∀ x ∈ xs, x.Valid) :
    Lays (fun p => Row (Piece.Stands p) xs) (writePieces? · xs) := by
  induction xs with
  | nil =>
    intro at_ p m at_' tracks h
    obtain ⟨rfl, rfl⟩ := Prod.mk.inj (Option.some.inj h)
    simpa using ⟨tracks, Row.nil⟩
  | cons x xs ih =>
    intro at_ p m at_' tracks h
    obtain ⟨first, later⟩ := List.forall_mem_cons.mp valid
    simp only [writePieces?, Option.bind_eq_bind, Option.bind_eq_some_iff, Prod.exists] at h
    obtain ⟨front, at₁, h₁, rest, at₂, h₂, hr⟩ := h
    obtain ⟨rfl, rfl⟩ := Prod.mk.inj (Option.some.inj hr)
    obtain ⟨tracks₁, standsFirst⟩ := lays_piece first tracks h₁
    obtain ⟨tracks₂, standsRest⟩ := ih later tracks₁ h₂
    have standsFirst := standsFirst.append rest.toArray
    rw [append_append] at tracks₂ standsFirst standsRest
    rw [size_append, Nat.add_assoc, ← List.length_append] at standsRest
    exact ⟨tracks₂, .cons standsFirst standsRest⟩

theorem lays_record {r : Record} (valid : r.Valid) : Lays (Record.Stands · r) (r.write? ·) := by
  intro at_ p m at_' tracks h
  simp only [Record.write?, Option.bind_eq_bind, Option.bind_eq_some_iff, Prod.exists] at h
  obtain ⟨owner, at₁, h₁, at₂, h₂, rdata, at₃, h₃, hr⟩ := h
  obtain ⟨rfl, rfl⟩ := Prod.mk.inj (Option.some.inj hr)
  obtain ⟨tracks₁, spells⟩ := lays_name valid.owner true tracks h₁
  let fixed := Bytes.of16 r.rtype.code ++ Bytes.of16 r.rclass ++ Bytes.of32 r.ttl
    ++ Bytes.ofNumber 2 rdata.length
  have holds := (p ++ owner.toArray).holds_behind fixed
  have tracks₂ : at₂.Tracks (p ++ owner.toArray ++ fixed.toArray) := by
    refine tracks₁.advance ((congrArg at₁.advance? ?_).trans h₂)
    simp [fixed]
  obtain ⟨tracks₃, row⟩ := lays_pieces valid.rdata tracks₂ h₃
  have octets : owner ++ (Bytes.of16 r.rtype.code ++ Bytes.of16 r.rclass ++ Bytes.of32 r.ttl)
      ++ Bytes.ofNumber 2 rdata.length ++ rdata = owner ++ fixed ++ rdata := by simp [fixed]
  have length : fixed.length = 10 := by simp [fixed]
  have ends : p.size + (owner ++ fixed ++ rdata).length
      = p.size + owner.length + 10 + rdata.length := by
    rw [List.length_append, List.length_append, length, ← Nat.add_assoc, ← Nat.add_assoc]
  rw [size_append] at holds
  rw [size_append, size_append, length] at row
  rw [octets, ends, ← append_append, ← append_append]
  refine ⟨tracks₃, .intro ((spells.append _).append _) ?_ row⟩
  rw [Nat.add_sub_cancel_left]
  exact holds.append _

end Answer

end ResolverGate
