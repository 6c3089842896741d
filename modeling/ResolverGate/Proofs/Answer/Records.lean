import ResolverGate.Proofs.Answer.Compression

/-! # Records as they are read

Every name that the records of a message yield, as an owner or in their data, can be
written again. The rules for what a scan yields follow how scans are put together.
-/

namespace ResolverGate

namespace Answer

namespace Scan

variable {α β : Type} {P : α → Prop} {Q : β → Prop} {p : Packet} {pos : Nat} {b : β}
  {d : Defect} {scan : Scan α} {next : α → Scan β}

/-- Whatever the scan reads, wherever it stands, has the property. -/
def Yields (P : α → Prop) (scan : Scan α) : Prop :=
  ∀ ⦃p pos a⦄, scan.resultAt p pos = .ok a → P a

theorem exists_of_resultAt_bind (h : (scan >>= next).resultAt p pos = .ok b) :
    ∃ a ending, scan.resultAt p pos = .ok a ∧ (next a).resultAt p ending = .ok b := by
  simp only [resultAt, ReaderT.run_bind, ExceptT.run_bind, StateT.run_bind] at h ⊢
  cases hr : (scan.run p).run.run pos with
  | mk result ending =>
  rw [hr] at h
  cases result with
  | error d => cases h
  | ok a => exact ⟨a, ending, rfl, h⟩

theorem yields_pure {a : α} (h : P a) : Yields P (pure a) := by
  intro p pos a' h'
  obtain rfl := Except.ok.inj h'
  exact h

theorem yields_throw : Yields P (throw d : Scan α) := by
  intro p pos a h
  cases h

theorem Yields.bind (h : Yields P scan) (hnext : ∀ a, P a → Yields Q (next a)) :
    Yields Q (scan >>= next) := by
  intro p pos b hb
  obtain ⟨a, ending, ha, hb⟩ := exists_of_resultAt_bind hb
  exact hnext a (h ha) hb

theorem Yields.after (scan : Scan α) (hnext : ∀ a, Yields Q (next a)) :
    Yields Q (scan >>= next) :=
  Yields.bind (P := fun _ => True) (fun _ _ _ _ => trivial) fun a _ => hnext a

theorem yields_guard {c : Prop} [Decidable c] {rest : Unit → Scan α} (h : Yields P (rest ())) :
    Yields P (if c then throw d >>= rest else rest ()) := by
  split
  · exact .after _ fun _ => h
  · exact h

theorem yields_ofExcept {x : Except Defect α} (h : ∀ a, x = .ok a → P a) :
    Yields P (ofExcept x) := by
  cases x with
  | ok a => exact yields_pure (h a rfl)
  | error d => exact yields_throw

theorem resultAt_of_tryCatch {handle : Defect → Scan β} {scan : Scan β}
    (h : (tryCatch scan handle).resultAt p pos = .ok b) :
    scan.resultAt p pos = .ok b ∨ ∃ d ending, (handle d).resultAt p ending = .ok b := by
  simp only [resultAt, MonadExcept.tryCatch, tryCatchThe, MonadExceptOf.tryCatch, ReaderT.run,
    ExceptT.tryCatch, ExceptT.run_mk, StateT.run_bind] at h ⊢
  simp only [ExceptT.run] at h ⊢
  cases hr : StateT.run (scan p) pos with
  | mk result ending =>
  rw [hr] at h
  cases result with
  | ok a => exact .inl h
  | error d => exact .inr ⟨d, ending, h⟩

theorem Yields.tryCatch {handle : Defect → Scan α} (h : Yields P scan)
    (hhandle : ∀ d, Yields P (handle d)) : Yields P (tryCatch scan handle) := by
  intro p pos a ha
  obtain ha | ⟨d, ending, ha⟩ := resultAt_of_tryCatch ha
  · exact h ha
  · exact hhandle d ha

theorem yields_outcome (h : Yields P scan) :
    Yields (fun r => ∀ a, r = .ok a → P a) (outcome scan) := by
  refine .tryCatch (.bind h fun a ha => yields_pure ?_) fun d => yields_pure ?_
  · rintro _ ⟨⟩
    exact ha
  · simp

theorem yields_name : Yields Labels.Valid name := by
  refine .after get fun pos => .after read fun p => ?_
  cases hn : p.name none pos pos (Labels.maxWireLength - 1) with
  | mk labels ending =>
  refine .after (set ending) fun _ => yields_ofExcept fun ls h => ?_
  rw [h] at hn
  exact (Packet.name_eq_ok_iff.mp hn).1.valid

theorem yields_mapM {scans : List (Scan α)} (h : ∀ x ∈ scans, Yields P x) :
    Yields (∀ a ∈ ·, P a) (scans.mapM id) := by
  induction scans with
  | nil => exact yields_pure (by simp)
  | cons x scans ih =>
    rw [List.mapM_cons]
    refine .bind (h x List.mem_cons_self) fun a ha => ?_
    refine .bind (ih fun y hy => h y (List.mem_cons_of_mem _ hy)) fun as has => yields_pure ?_
    exact List.forall_mem_cons.mpr ⟨ha, has⟩

end Scan

namespace Fields

open Scan

theorem yields_name (compressible : Bool) : Yields Piece.Valid (name compressible) :=
  .bind Scan.yields_name fun _ h => yields_pure h

theorem yields_plain (field : Scan Bytes) : Yields Piece.Valid (plain field) :=
  .after field fun _ => yields_pure trivial

theorem yields_numbers (sizes : List Nat) :
    ∀ field ∈ numbers sizes, Yields Piece.Valid field := by
  intro field h
  obtain ⟨n, -, rfl⟩ := List.mem_map.mp h
  exact yields_plain _

theorem yields_ofType (t : RecordType) (e : Extent) :
    ∀ field ∈ ofType t e, Yields Piece.Valid field := by
  unfold ofType
  split <;>
    simp only [List.forall_mem_cons, List.forall_mem_append, List.cons_append, List.not_mem_nil,
      false_imp_iff, implies_true, and_true, eq_true (yields_numbers _), yields_name,
      yields_plain, string]

end Fields

open Scan

theorem yields_recordData (t : RecordType) (length : Nat) :
    Yields (∀ x ∈ ·, x.Valid) (recordData t length) := by
  refine yields_guard (.after get fun start => ?_)
  refine .bind (P := fun r => ∀ xs, r = .ok xs → ∀ x ∈ xs, x.Valid) ?_ fun pieces h => ?_
  · exact yields_outcome (yields_mapM (Fields.yields_ofType t _))
  · exact .after _ fun consumed => yields_guard (yields_ofExcept h)

theorem yields_record (opcode : UInt16) : Yields Record.Valid (record opcode) := by
  refine .bind Scan.yields_name fun owner ho => ?_
  refine .after word fun rtype => yields_guard ?_
  refine .after word fun rclass => .after longWord fun ttl => ?_
  refine .after (number 2) fun length => .after left fun left => yields_guard ?_
  split
  · split
    · exact yields_pure ⟨ho, by simp⟩
    · exact yields_throw
  · exact .bind (yields_recordData _ _) fun rdata hr => yields_pure ⟨ho, hr⟩

theorem yields_records (opcode : UInt16) (n : Nat) :
    Yields (∀ r ∈ ·, r.Valid) (records opcode n) := by
  induction n with
  | zero => exact yields_pure (by simp)
  | succ n ih =>
    refine .bind (yields_record opcode) fun r hr => yields_guard ?_
    exact .bind ih fun rs hrs => yields_pure (List.forall_mem_cons.mpr ⟨hr, hrs⟩)

theorem yields_additionalRecords (opcode : UInt16) (optSeen signed : Bool) (n : Nat) :
    Yields (∀ r ∈ ·, r.Valid) (additionalRecords opcode optSeen signed n) := by
  induction n generalizing optSeen signed with
  | zero => exact yields_pure (by simp)
  | succ n ih =>
    refine .bind (yields_record opcode) fun r hr => yields_guard ?_
    split
    · exact yields_guard (ih true signed)
    split
    · exact ih optSeen true
    · refine .bind (ih optSeen signed) fun rs hrs => yields_pure ?_
      exact List.forall_mem_cons.mpr ⟨hr, hrs⟩

/-- The records that are read of a message can be written again. -/
theorem valid_of_readSections {h : Header} {p : Packet} {s : Sections Record}
    (hs : readSections h p = .ok s) : ∀ r ∈ s.records, r.Valid := by
  have yields : Yields (fun s => ∀ r ∈ Sections.records s, r.Valid) (Scan.sections h) := by
    refine .after _ fun _ => .bind (yields_records _ _) fun answers ha => ?_
    refine .bind (yields_records _ _) fun authority hn => ?_
    refine .bind (yields_additionalRecords _ _ _ _) fun additional hr => yields_pure ?_
    simp only [Sections.records, List.forall_mem_append]
    exact ⟨⟨ha, hn⟩, hr⟩
  exact yields hs

end Answer

end ResolverGate
