import ResolverGate.Proofs.Answer.Records

/-! # Reading plain records

The data of most record types is taken as it comes. Answers of such records read as what
stands in them, whatever the length of the data.
-/

namespace ResolverGate

namespace Answer

namespace Scan

variable {α β : Type} {p : Packet} {pos mid stop : Nat} {a : α} {b : β} {d : Defect}
  {scan : Scan α} {next : α → Scan β} {m : Bytes} {ls : Labels}

/-- From `pos` on the scan reads `a`, and stands at `stop` then. -/
def Reads (scan : Scan α) (p : Packet) (pos : Nat) (a : α) (stop : Nat) : Prop :=
  (scan.run p).run.run pos = (.ok a, stop)

theorem Reads.resultAt (h : Reads scan p pos a stop) : scan.resultAt p pos = .ok a :=
  congrArg Prod.fst h

theorem reads_pure (a : α) : Reads (pure a) p pos a pos := rfl

theorem reads_get : Reads get p pos pos pos := rfl

theorem reads_set (n : Nat) : Reads (set n) p pos PUnit.unit n := rfl

theorem reads_packet : Reads read p pos p pos := rfl

theorem reads_left : Reads left p pos (p.size - pos) pos := rfl

theorem Reads.bind (h : Reads scan p pos a mid) (hnext : Reads (next a) p mid b stop) :
    Reads (scan >>= next) p pos b stop := by
  unfold Reads at *
  simp only [ReaderT.run_bind, ExceptT.run_bind, StateT.run_bind]
  rw [h]
  exact hnext

theorem Reads.guard {c : Prop} [Decidable c] {rest : Unit → Scan α}
    (h : Reads (rest ()) p pos a stop) (passed : ¬ c) :
    Reads (if c then throw d >>= rest else rest ()) p pos a stop := by
  rwa [if_neg passed]

theorem Reads.outcome (h : Reads scan p pos a stop) :
    Reads (outcome scan) p pos (.ok a) stop := by
  have mapped : Reads (Except.ok <$> scan : Scan (Except Defect α)) p pos (.ok a) stop := by
    rw [map_eq_pure_bind]
    exact h.bind (reads_pure _)
  unfold Reads at *
  simp only [Scan.outcome, MonadExcept.tryCatch, tryCatchThe, MonadExceptOf.tryCatch, ReaderT.run,
    ExceptT.tryCatch, ExceptT.run_mk, StateT.run_bind] at mapped ⊢
  simp only [ExceptT.run] at mapped ⊢
  rw [mapped]
  rfl

theorem reads_octets (h : p.Holds pos m) (fits : pos + m.length ≤ p.size) :
    Reads (octets m.length) p pos m (pos + m.length) := by
  have cut := Packet.slice?_eq_some_iff.mpr ⟨rfl, fits, h⟩
  refine reads_get.bind (reads_packet.bind ?_)
  rw [cut]
  exact (reads_set _).bind (reads_pure m)

theorem reads_number (h : p.Holds pos m) (fits : pos + m.length ≤ p.size) :
    Reads (number m.length) p pos (Bytes.toNumber m) (pos + m.length) :=
  (reads_octets h fits).bind (reads_pure _)

theorem reads_ofNumber {width n : Nat} (h : p.Holds pos (Bytes.ofNumber width n))
    (small : n < Bytes.bound width) (fits : pos + width ≤ p.size) :
    Reads (number width) p pos n (pos + width) := by
  have reads := reads_number h (by rwa [Bytes.length_ofNumber])
  rwa [Bytes.length_ofNumber, Bytes.toNumber_ofNumber, Nat.mod_eq_of_lt small] at reads

theorem reads_word {w : UInt16} (h : p.Holds pos (Bytes.of16 w)) (fits : pos + 2 ≤ p.size) :
    Reads word p pos w (pos + 2) := by
  refine (reads_ofNumber h w.toNat_lt fits).bind ?_
  rw [UInt16.ofNat_toNat]
  exact reads_pure w

theorem reads_longWord {w : UInt32} (h : p.Holds pos (Bytes.of32 w)) (fits : pos + 4 ≤ p.size) :
    Reads longWord p pos w (pos + 4) := by
  refine (reads_ofNumber h w.toNat_lt fits).bind ?_
  rw [UInt32.ofNat_toNat]
  exact reads_pure w

theorem reads_name (h : p.Spells none pos pos ls stop) (short : ls.wireLength < 255) :
    Reads name p pos ls stop := by
  have small : ls.wireLength ≤ Labels.maxWireLength - 1 := Nat.le_of_lt_succ short
  refine reads_get.bind (reads_packet.bind ?_)
  rw [h.name_eq small]
  exact (reads_set stop).bind (reads_pure ls)

end Scan

open Scan

/-- A record whose data is taken as it comes, and that may stand in any section. -/
structure Record.Plain (r : Record) : Prop where
  owner : r.owner.Valid
  short : r.owner.wireLength < 255
  fields : ∀ e, Fields.ofType r.rtype e = [Fields.plain e.rest]
  rtype : r.rtype ∉ [.opt, .sig, .tsig, .any] ∧ r.rtype.isZoneTransfer = false
  rdata : ∃ data, r.rdata = [.octets data] ∧ 0 < data.length ∧ data.length < 65536

variable {p : Packet} {pos stop : Nat} {r : Record} {rs : List Record} {m : Bytes}

theorem Record.Plain.valid (plain : r.Plain) : r.Valid := by
  obtain ⟨data, hdata, -⟩ := plain.rdata
  exact ⟨plain.owner, by simp [hdata, Piece.Valid]⟩

theorem reads_recordData {t : RecordType} (fields : ∀ e, Fields.ofType t e = [Fields.plain e.rest])
    (ordinary : ¬ (t.isZoneTransfer = true ∨ t = .any)) (h : p.Holds pos m)
    (fits : pos + m.length ≤ p.size) :
    Reads (recordData t m.length) p pos [.octets m] (pos + m.length) := by
  let e : Extent := ⟨pos, m.length⟩
  have consumed (n : Nat) : Reads e.consumed p (pos + n) n (pos + n) := by
    have stands : Reads (do return (← get) - e.start : Scan Nat) p (pos + n) (pos + n - pos)
      (pos + n) := reads_get.bind (reads_pure _)
    rwa [Nat.add_sub_cancel_left] at stands
  have left : Reads e.left p pos m.length pos := by
    refine (consumed 0).bind (Reads.guard ?_ (Nat.not_lt_zero _))
    exact reads_pure _
  have rest : Reads e.rest p pos m (pos + m.length) := left.bind (reads_octets h fits)
  have pieces : Reads ([Fields.plain e.rest].mapM id) p pos [.octets m] (pos + m.length) := by
    rw [List.mapM_cons, List.mapM_nil]
    refine Reads.bind (a := .octets m) ?_ (Reads.bind (reads_pure []) (reads_pure _))
    rw [id, Fields.plain, map_eq_pure_bind]
    exact rest.bind (reads_pure _)
  rw [← fields e] at pieces
  rw [recordData, if_neg ordinary]
  refine reads_get.bind (pieces.outcome.bind ((consumed m.length).bind ?_))
  exact Reads.guard (reads_pure _) (not_not.mpr rfl)

theorem reads_record (opcode : UInt16) (plain : r.Plain) (stands : r.Stands p pos stop)
    (fits : stop ≤ p.size) : Reads (record opcode) p pos r stop := by
  obtain ⟨-, owner, fields, ⟨ordinary, transfer⟩, data, hdata, some, short⟩ := plain
  obtain @⟨front, spells, fixed, row⟩ := stands
  obtain ⟨holds, rfl⟩ : p.Holds (front + 10) data ∧ stop = front + 10 + data.length := by
    rw [hdata] at row
    cases row with
    | cons first rest => exact rest.eq_of_nil ▸ first
  rw [Nat.add_sub_cancel_left] at fixed
  obtain ⟨fixed, length⟩ := Packet.holds_append_iff.mp fixed
  obtain ⟨fixed, ttl⟩ := Packet.holds_append_iff.mp fixed
  obtain ⟨rtype, rclass⟩ := Packet.holds_append_iff.mp fixed
  simp only [List.length_append, Bytes.length_of16, Bytes.length_of32] at length ttl rclass
  have none : ¬ (r.rtype = .opt ∧ r.owner ≠ []) := fun h => ordinary (by simp [h.1])
  have other : ¬ (r.rtype.isZoneTransfer = true ∨ r.rtype = .any) := by
    rintro (h | h)
    · simp [transfer] at h
    · exact ordinary (by simp [h])
  refine (reads_name spells owner).bind ((reads_word rtype (by omega)).bind ?_)
  refine Reads.guard ?_ none
  refine (reads_word rclass (by omega)).bind ((reads_longWord ttl (by omega)).bind ?_)
  refine (reads_ofNumber length short (by omega)).bind (reads_left.bind ?_)
  refine Reads.guard ?_ (by omega)
  rw [if_neg (by omega)]
  refine (reads_recordData fields other holds (by omega)).bind ?_
  obtain ⟨o, t, c, l, d⟩ := r
  obtain rfl : d = [.octets data] := hdata
  exact reads_pure _

theorem reads_records (opcode : UInt16) (plain : ∀ r ∈ rs, r.Plain)
    (row : Row (Record.Stands p) rs pos stop) (fits : stop ≤ p.size) :
    Reads (records opcode rs.length) p pos rs stop := by
  induction row with
  | nil => exact reads_pure _
  | @cons r rs pos mid stop first rest ih =>
    have within := rest.le_stop 0 fun _ _ _ h => Nat.le_of_add_right_le h.length
    have ordinary := (plain r List.mem_cons_self).rtype.1
    refine (reads_record opcode (plain r List.mem_cons_self) first (by omega)).bind ?_
    refine Reads.guard ?_ ?_
    · refine (ih (fun r' hr' => plain r' (List.mem_cons_of_mem _ hr')) fits).bind ?_
      exact reads_pure _
    · rintro (h | h | h) <;> exact ordinary (by simp [h])

/-- Plain records in the answer section are all that is read of an answer without question. -/
theorem readSections_of_plain {h : Header} (plain : ∀ r ∈ rs, r.Plain)
    (row : Row (Record.Stands p) rs Header.size stop) (fits : stop ≤ p.size)
    (counted : h.ancount.toNat = rs.length) (unasked : h.qdcount = 0) (unreferred : h.nscount = 0)
    (alone : h.arcount = 0) : readSections h p = .ok ⟨rs, [], []⟩ := by
  have sections : Reads (Scan.sections h) p Header.size ⟨rs, [], []⟩ stop := by
    rw [Scan.sections, counted, unasked, unreferred, alone]
    refine (reads_pure ()).bind ((reads_records h.opcode plain row fits).bind ?_)
    exact (reads_pure []).bind ((reads_pure []).bind (reads_pure _))
  exact sections.resultAt

end Answer

end ResolverGate
