import ResolverGate.Proofs.Engine.Telling

/-! # Queries leave each other alone

An operation changes the query that it is given the id of, or begins one; every other
query stays as it is. Operations on two queries can be done in either order, and one that
no query expects changes nothing.
-/

namespace ResolverGate

variable {C : Type}

/-- In either order, the two operations have the same results and effects and lead to the
same engine, if each meets the same outside. -/
inductive Engine.Commute (e : Engine C) (host : Host) (op : Operation C) (host' : Host)
    (op' : Operation C) : Prop
  | intro {r r' : Result} {x x' : Effects C} {e₁ e₂ last : Engine C}
      (first : e.perform host op = some (r, e₁, x))
      (next : e₁.perform host' op' = some (r', last, x'))
      (first' : e.perform host' op' = some (r', e₂, x'))
      (next' : e₂.perform host op = some (r, last, x))

/-- There is no query under the id that the operation is given, or it is at a stage that
does not expect the operation. -/
inductive Operation.Unexpected (op : Operation C) (e : Engine C) : Prop
  | absent {id : QueryId} (target : op.target? = some id) (absent : e.table.find? id = none)
  | stage {id : QueryId} {p : Pending C} (target : op.target? = some id)
      (present : e.table.find? id = some p) (unexpected : ¬ op.Expects p.stage)

theorem Table.remove_of_absent {t : Table C} {id : QueryId} (h : t.find? id = none) :
    t.remove id = t := by
  have kept : ∀ x ∈ t.entries, decide (x.1 ≠ id) = true := by
    intro x hx
    exact decide_eq_true (bne_iff_ne.mp (List.lookup_eq_none_iff.mp h x hx)).symm
  rw [remove, List.filter_eq_self.mpr kept]

namespace Engine

variable {id id' : QueryId} {op op' : Operation C}

/-- What an operation does depends only on the setting and on the query that it is given
the id of, and it changes nothing but that query. -/
theorem exists_put (e : Engine C) (host : Host) (target : op.target? = some id) :
    ∃ r x o, ∀ e' : Engine C, e'.setting = e.setting → e'.table.find? id = e.table.find? id →
      e'.perform host op = some (r, { e' with table := e'.table.put id o }, x) := by
  cases hp : e.table.find? id with
  | some p =>
    let t := op.turn e.setting host p
    refine ⟨op.result t, t.effects p, t.entry, fun e' setting found => ?_⟩
    rw [perform_found target found, commit_eq, setting]
  | none =>
    refine ⟨op.missed.1, ⟨[], [], [], [], op.missed.2⟩, none, fun e' _ found => ?_⟩
    rw [perform_missed target found, Table.put, Table.remove_of_absent found]

theorem commute (e : Engine C) (host host' : Host) (target : op.target? = some id)
    (target' : op'.target? = some id') (different : id ≠ id') :
    e.Commute host op host' op' := by
  obtain ⟨r, x, o, does⟩ := e.exists_put host target
  obtain ⟨r', x', o', does'⟩ := e.exists_put host' target'
  refine .intro (does e rfl rfl) (does' _ rfl (Table.find?_put_of_ne different.symm))
    (does' e rfl rfl) ?_
  have second := does { e with table := e.table.put id' o' } rfl (Table.find?_put_of_ne different)
  rwa [← Table.put_comm different] at second

end Engine

namespace Step

variable {s : Step C} {id id' : QueryId}

theorem find?_of_other (target : s.operation.target? = some id) (other : id' ≠ id) :
    s.after.table.find? id' = s.before.table.find? id' := by
  obtain ⟨k, own, others⟩ := s.confined
  exact others id' (own id target ▸ other)

theorem unexpected (distinct : s.before.table.Distinct)
    (h : s.operation.Unexpected s.before) :
    s.after = s.before ∧ { s.effects with notices := [] } = (Effects.none : Effects C) := by
  cases h with
  | absent target absent =>
    obtain ⟨-, after, effects⟩ := s.missed target absent
    exact ⟨after, by rw [effects, Effects.none]⟩
  | stage target present unexpected => exact (s.ignored distinct target present unexpected).2

end Step

namespace Run

variable {ids : IdSource} {setting : Setting} {steps : List (Step C)} {e : Engine C}

/-- Whatever was done before, an operation leaves all queries but one as they are, and all
of them if none expects it; operations on two queries commute. -/
theorem isolated (run : Run (.fresh ids setting) steps e) :
    (∀ s : Step C, s.before = e →
      (∀ id id', s.operation.target? = some id → id' ≠ id →
        s.after.table.find? id' = e.table.find? id') ∧
      (s.operation.target? = none →
        (∀ id p, e.table.find? id = some p → s.after.table.find? id = some p) ∧
        ∀ id id', s.Creates id → s.Creates id' → id = id') ∧
      (∀ blocklist, s.operation = .replaceBlocklist blocklist → s.after.table = e.table) ∧
      (s.operation.Unexpected e → s.after = e ∧ { s.effects with notices := [] } = .none)) ∧
    ∀ (op op' : Operation C) (id id' : QueryId) (host host' : Host),
      op.target? = some id → op'.target? = some id' → id ≠ id' →
      e.Commute host op host' op' := by
  refine ⟨?_, fun op op' id id' host host' => e.commute host host'⟩
  rintro s rfl
  refine ⟨fun id id' => s.find?_of_other, fun none => ⟨fun id p present => ?_, fun id id' => ?_⟩,
    fun blocklist op => ?_, s.unexpected (run.distinct Engine.distinct_fresh)⟩
  · exact s.find?_of_not_target (by simp [none]) present
  · exact Step.creates_unique
  · cases s.shape with
    | replaced _ _ after => rw [after]; rfl
    | _ => simp_all [Operation.target?]

/-- Two connections are accepted, and it does not matter which is read first. -/
theorem isolated_two : ∃ (steps : List (Step Nat)) (e : Engine Nat),
    Run (.fresh (.ofQueue [] 7) .small) steps e ∧ e.tcpReadWindow ⟨7⟩ = some 2 ∧
      e.tcpReadWindow ⟨8⟩ = some 2 ∧
      e.Commute .plenty (.tcpReceived ⟨7⟩ [0]) .plenty (.expire ⟨8⟩) := by
  have used : ∀ k < 0, Step.connect.after.table.contains
      (Step.connect.after.table.ids.ahead k) = true := by simp
  let second : Step Nat := ⟨Step.connect.after, .plenty, .tcpAccepted .loopback 6, _, _, _,
    Engine.perform_connection (Table.allocate_of_first used rfl)⟩
  have connected : Run .small [Step.connect] second.before := .next (s := .connect) .start
  have run : Run .small [Step.connect, second] second.after := connected.next
  exact ⟨_, _, run, rfl, rfl, run.isolated.2 _ _ ⟨7⟩ ⟨8⟩ _ _ rfl rfl (by decide)⟩

end Run

end ResolverGate
