import ResolverGate.BlocklistFile
import ResolverGate.Proofs.Blocklist
import ResolverGate.Proofs.Text.Lines

/-! # What a blocklist file means

Its entries are the trimmed lines of one word that are no comments. The blocklist read from
it holds these and nothing else.
-/

namespace ResolverGate

namespace BlocklistFile

/-- What a trimmed line must be to name a domain: one word, and no comment. -/
structure IsEntry (line : List Char) : Prop where
  nonempty : line ≠ []
  uncommented : line.head? ≠ some '#'
  single : ∀ c ∈ line, Text.isBlank c = false

theorem isEntry_iff {line : List Char} :
    IsEntry line ↔ line ≠ [] ∧ line.head? ≠ some '#' ∧ ∀ c ∈ line, Text.isBlank c = false :=
  ⟨fun h => ⟨h.nonempty, h.uncommented, h.single⟩, fun h => ⟨h.1, h.2.1, h.2.2⟩⟩

instance : DecidablePred IsEntry := fun _ =>
  letI := List.decidableBAll (Text.isBlank · = false)
  decidable_of_iff' _ isEntry_iff

/-- The lines of a text, trimmed. -/
def lines (s : String) : List (List Char) := (Text.splitOn (· = '\n') s.toList).map Text.trim

def entries (s : String) : List String := ((lines s).filter IsEntry).map String.ofList

theorem addLine_fst (state : Blocklist × List Notice) (line : Nat × List Char) :
    (addLine state line).1 =
      if IsEntry line.2 then (state.1.insert (String.ofList line.2)).1 else state.1 := by
  obtain ⟨number, line⟩ := line
  simp only [addLine, Bool.or_eq_true, decide_eq_true_eq]
  split
  · next skipped =>
    rw [if_neg]
    rintro ⟨nonempty, uncommented, -⟩
    exact skipped.elim nonempty uncommented
  · next kept =>
    obtain ⟨nonempty, uncommented⟩ := not_or.mp kept
    split
    · next several =>
      obtain ⟨c, hc, blank⟩ := List.any_eq_true.mp several
      rw [if_neg]
      exact fun entry => Bool.false_ne_true ((entry.single c hc).symm.trans blank)
    · next single =>
      have solid : ∀ c ∈ line, Text.isBlank c = false := fun c hc =>
        Bool.eq_false_iff.mpr fun blank => single (List.any_eq_true.mpr ⟨c, hc, blank⟩)
      exact (if_pos ⟨nonempty, uncommented, solid⟩).symm

theorem ofText_fst (s : String) : (ofText s).1 = Blocklist.ofNames (entries s) := by
  have step (numbered : List (Nat × List Char)) (state : Blocklist × List Notice) :
      (numbered.foldl addLine state).1 =
        (((numbered.map (·.2)).filter IsEntry).map String.ofList).foldl
          (fun b name => (b.insert name).1) state.1 := by
    induction numbered generalizing state with
    | nil => rfl
    | cons line numbered ih =>
      rw [List.foldl_cons, ih, addLine_fst, List.map_cons, List.filter_cons]
      by_cases entry : IsEntry line.2 <;> simp [entry]
  rw [ofText, entries, lines, ← Text.map_snd_trimmedLines]
  exact step _ _

theorem contains_ofText {s name : String} :
    (ofText s).1.contains name = true ↔ ∃ entry ∈ entries s, Blocklist.Alike entry name := by
  rw [ofText_fst, Blocklist.contains_ofNames]

theorem mem_entries {s : String} {line : List Char} (mem : line ∈ lines s) (entry : IsEntry line) :
    String.ofList line ∈ entries s :=
  List.mem_map_of_mem (List.mem_filter.mpr ⟨mem, decide_eq_true entry⟩)

end BlocklistFile

end ResolverGate
