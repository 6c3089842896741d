import Mathlib.Data.Set.Card
import Mathlib.Order.Basic
import ResolverGate.Proofs.Engine.Table

/-! # Calls on the table

The table as its callers see it. Whatever was called on it before and whatever ids come up, it
holds the queries that were inserted and have since been neither removed nor followed by another
under their ids. The first candidate that is not in use is drawn, and stays free until a query
is inserted under it.
-/

namespace ResolverGate

namespace Table

variable {C : Type} {t t' t'' : Table C} {p q : Pending C} {id : QueryId} {ids : IdSource}

inductive Call (C : Type)
  | allocate
  | insert (p : Pending C)
  | find (id : QueryId)
  | remove (id : QueryId)
  | contains (id : QueryId)

inductive Reply (C : Type)
  | drawn (id : QueryId)
  | inserted (result : Except Fault Unit)
  | found (entry : Option (Pending C))
  | contained (known : Bool)

/-- An insertion that fails leaves the table as it was. None if ids are drawn without end. -/
def perform (t : Table C) : Call C → Option (Reply C × Table C)
  | .allocate => t.allocate.map fun (id, t') => (.drawn id, t')
  | .insert p =>
    match t.insert p with
    | .ok t' => some (.inserted (.ok ()), t')
    | .error fault => some (.inserted (.error fault), t)
  | .find id => some (.found (t.find? id), t)
  | .remove id => some (.found (t.find? id), t.remove id)
  | .contains id => some (.contained (t.contains id), t)

inductive Calls (t : Table C) : List (Call C × Reply C) → Table C → Prop
  | start : Calls t [] t
  | next {log : List (Call C × Reply C)} {t' t'' : Table C} {call : Call C} {reply : Reply C}
      (calls : Calls t log t') (made : t'.perform call = some (reply, t'')) :
      Calls t (log ++ [(call, reply)]) t''

/-! ## What the calls say -/

/-- The call decides what is stored under the id from then on. -/
inductive Decides (id : QueryId) : Call C × Reply C → Prop
  | inserted {p : Pending C} (own : p.id = id) : Decides id (.insert p, .inserted (.ok ()))
  | removed (reply : Reply C) : Decides id (.remove id, reply)

/-- The query was inserted, and nothing was decided under its id since then. -/
def Stored (log : List (Call C × Reply C)) (p : Pending C) : Prop :=
  ∃ before after, log = before ++ (.insert p, .inserted (.ok ())) :: after ∧
    ∀ e ∈ after, ¬ Decides p.id e

def InUse (log : List (Call C × Reply C)) (id : QueryId) : Prop := ∃ p, Stored log p ∧ p.id = id

/-- The table as a map from ids to the queries that are stored under them. -/
structure Maps (log : List (Call C × Reply C)) (t : Table C) : Prop where
  entry (id : QueryId) (p : Pending C) : (id, p) ∈ t.entries → p.id = id
  find (id : QueryId) : ∃ entry, t.perform (.find id) = some (.found entry, t) ∧
    ∀ p, entry = some p ↔ Stored log p ∧ p.id = id
  remove (id : QueryId) : ∃ entry, t.perform (.remove id) = some (.found entry, t.remove id) ∧
    ∀ p, entry = some p ↔ Stored log p ∧ p.id = id
  contains (id : QueryId) : ∃ known, t.perform (.contains id) = some (.contained known, t) ∧
    (known = true ↔ InUse log id)
  count : t.count = {p | Stored log p}.ncard
  insert_used (p : Pending C) : InUse log p.id →
    t.perform (.insert p) = some (.inserted (.error (.duplicateQueryId p.id)), t)
  insert_free (p : Pending C) : ¬ InUse log p.id →
    ∃ t', t.perform (.insert p) = some (.inserted (.ok ()), t') ∧ t'.ids = t.ids

/-- The candidates up to the first one that is not in use are consumed, and that one is drawn.
It can be used as long as no query was inserted under it. -/
structure Draws (log : List (Call C × Reply C)) (t : Table C) : Prop where
  terminates (n : Nat) : ¬ InUse log (t.ids.ahead n) →
    ∃ reply t', t.perform .allocate = some (reply, t')
  first (reply : Reply C) (t' : Table C) : t.perform .allocate = some (reply, t') ↔
    ∃ n, reply = .drawn (t.ids.ahead n) ∧ t' = ⟨t.entries, t.ids.advance (n + 1)⟩ ∧
      (∀ k < n, InUse log (t.ids.ahead k)) ∧ ¬ InUse log (t.ids.ahead n)
  usable (id : QueryId) (t' : Table C) : t.perform .allocate = some (.drawn id, t') →
    ∀ later t'', Calls t' later t'' →
      (∀ q reply, (.insert q, reply) ∈ later → q.id ≠ id) →
      ∀ p, p.id = id → ∃ t''', t''.perform (.insert p) = some (.inserted (.ok ()), t''')

variable {log : List (Call C × Reply C)} {e : Call C × Reply C} {call : Call C} {reply : Reply C}

theorem not_stored_nil : ¬ Stored [] p := by
  rintro ⟨before, after, eq, -⟩
  simp at eq

theorem stored_snoc : Stored (log ++ [e]) p ↔
    e = (.insert p, .inserted (.ok ())) ∨ Stored log p ∧ ¬ Decides p.id e := by
  constructor
  · rintro ⟨before, after, eq, quiet⟩
    rcases List.eq_nil_or_concat after with rfl | ⟨after, last, rfl⟩
    · exact .inl (List.singleton_inj.mp (List.append_inj' eq rfl).2)
    · rw [List.concat_eq_append, ← List.cons_append, ← List.append_assoc] at eq
      obtain ⟨rfl, same⟩ := List.append_inj' eq rfl
      obtain rfl := List.singleton_inj.mp same
      refine .inr ⟨⟨before, after, rfl, fun e mem => ?_⟩, ?_⟩
      · exact quiet e (by simp [mem])
      · exact quiet _ (by simp)
  · rintro (rfl | ⟨⟨before, after, rfl, quiet⟩, undecided⟩)
    · exact ⟨log, [], rfl, by simp⟩
    · refine ⟨before, after ++ [e], by simp, fun e' mem => ?_⟩
      rcases List.mem_append.mp mem with mem | mem
      · exact quiet e' mem
      · rwa [List.mem_singleton.mp mem]

theorem stored_snoc_of_undecided (undecided : ∀ id, ¬ Decides id e) :
    Stored (log ++ [e]) p ↔ Stored log p := by
  rw [stored_snoc, and_iff_left (undecided p.id), or_iff_right]
  rintro rfl
  exact undecided p.id (.inserted rfl)

/-! ## What one call does -/

inductive Effect (t : Table C) : Call C → Reply C → Table C → Prop
  | inserted {p : Pending C} (absent : t.find? p.id = none) :
      Effect t (.insert p) (.inserted (.ok ())) ⟨(p.id, p) :: t.entries, t.ids⟩
  | removed (id : QueryId) : Effect t (.remove id) (.found (t.find? id)) (t.remove id)
  | quiet {call : Call C} {reply : Reply C} {t' : Table C}
      (undecided : ∀ id, ¬ Decides id (call, reply)) (same : t'.entries = t.entries) :
      Effect t call reply t'

theorem perform_insert_of_absent (absent : t.find? p.id = none) : t.perform (.insert p) =
    some (.inserted (.ok ()), ⟨(p.id, p) :: t.entries, t.ids⟩) := by
  rw [perform, insert_of_absent absent]

theorem perform_insert_of_present (present : t.find? p.id = some q) : t.perform (.insert p) =
    some (.inserted (.error (.duplicateQueryId p.id)), t) := by
  rw [perform, insert, if_pos (contains_iff.mpr ⟨q, present⟩)]

theorem effect_of_perform (made : t.perform call = some (reply, t')) :
    Effect t call reply t' := by
  cases call with
  | allocate =>
    obtain ⟨⟨id, t₁⟩, drawn, eq⟩ := Option.map_eq_some_iff.mp made
    obtain ⟨rfl, rfl⟩ := Prod.mk.inj eq
    obtain ⟨n, -, rfl, -⟩ := exists_of_allocate drawn
    exact .quiet nofun rfl
  | insert p =>
    cases found : t.find? p.id with
    | none =>
      rw [perform_insert_of_absent found] at made
      cases made
      exact .inserted found
    | some q =>
      rw [perform_insert_of_present found] at made
      cases made
      exact .quiet nofun rfl
  | find id =>
    cases made
    exact .quiet nofun rfl
  | remove id =>
    cases made
    exact .removed id
  | contains id =>
    cases made
    exact .quiet nofun rfl

theorem find?_of_entries (same : t'.entries = t.entries) : t'.find? id = t.find? id := by
  rw [find?, find?, same]

theorem find?_cons : (⟨(p.id, p) :: t.entries, ids⟩ : Table C).find? id =
    if id = p.id then some p else t.find? id := by
  rw [find?, List.lookup_cons]
  by_cases own : id = p.id
  · simp [own]
  · have differ : (id == p.id) = false := by simpa using own
    rw [differ, if_neg own]
    rfl

/-! ## What the table holds -/

structure Holds (log : List (Call C × Reply C)) (t : Table C) : Prop where
  distinct : t.Distinct
  find?_iff (id : QueryId) (p : Pending C) : t.find? id = some p ↔ Stored log p ∧ p.id = id

namespace Holds

theorem empty (ids : IdSource) : Holds [] (.empty ids : Table C) where
  distinct := List.nodup_nil
  find?_iff _ _ := by
    rw [find?_empty]
    exact iff_of_false nofun fun stored => not_stored_nil stored.1

theorem next (h : Holds log t) (effect : Effect t call reply t') :
    Holds (log ++ [(call, reply)]) t' := by
  cases effect with
  | @inserted q absent =>
    refine ⟨h.distinct.insert (insert_of_absent absent), fun id p => ?_⟩
    rw [find?_cons, stored_snoc]
    by_cases own : id = q.id
    · rw [if_pos own, Option.some.injEq]
      constructor
      · rintro rfl
        exact ⟨.inl rfl, own.symm⟩
      · rintro ⟨eq | ⟨-, undecided⟩, id_eq⟩
        · cases eq
          rfl
        · exact absurd (.inserted (own.symm.trans id_eq.symm)) undecided
    · rw [if_neg own, h.find?_iff]
      constructor
      · rintro ⟨stored, rfl⟩
        refine ⟨.inr ⟨stored, fun decides => ?_⟩, rfl⟩
        cases decides with
        | inserted id_eq => exact own id_eq.symm
      · rintro ⟨eq | ⟨stored, -⟩, rfl⟩
        · cases eq
          exact absurd rfl own
        · exact ⟨stored, rfl⟩
  | removed other =>
    refine ⟨h.distinct.remove other, fun id p => ?_⟩
    rw [find?_remove, stored_snoc]
    by_cases own : id = other
    · rw [if_pos own]
      refine iff_of_false nofun ?_
      rintro ⟨eq | ⟨-, undecided⟩, rfl⟩
      · cases eq
      · exact undecided (own ▸ .removed _)
    · rw [if_neg own, h.find?_iff]
      constructor
      · rintro ⟨stored, rfl⟩
        refine ⟨.inr ⟨stored, fun decides => ?_⟩, rfl⟩
        cases decides with
        | removed => exact own rfl
      · rintro ⟨eq | ⟨stored, -⟩, rfl⟩
        · cases eq
        · exact ⟨stored, rfl⟩
  | quiet undecided same =>
    refine ⟨?_, fun id p => ?_⟩
    · rw [Distinct, same]
      exact h.distinct
    · rw [find?_of_entries same, h.find?_iff, stored_snoc_of_undecided undecided]

variable (h : Holds log t)

include h

theorem find?_eq_none_iff : t.find? id = none ↔ ¬ InUse log id := by
  rw [Option.eq_none_iff_forall_ne_some, InUse, not_exists]
  exact forall_congr' fun p => not_congr (h.find?_iff id p)

theorem contains_iff : t.contains id = true ↔ InUse log id := by
  rw [Table.contains_iff]
  exact exists_congr fun p => h.find?_iff id p

theorem contains_eq_false_iff : t.contains id = false ↔ ¬ InUse log id := by
  rw [← h.contains_iff, Bool.not_eq_true]

theorem stored_iff_mem : Stored log p ↔ (p.id, p) ∈ t.entries := by
  constructor
  · intro stored
    have found := (h.find?_iff p.id p).mpr ⟨stored, rfl⟩
    obtain ⟨before, after, eq, -⟩ := List.lookup_eq_some_iff.mp found
    rw [eq]
    exact List.mem_append_right _ List.mem_cons_self
  · intro mem
    exact ((h.find?_iff p.id p).mp (h.distinct.find?_of_mem mem)).1

theorem id_eq_of_mem (mem : (id, p) ∈ t.entries) : p.id = id :=
  ((h.find?_iff id p).mp (h.distinct.find?_of_mem mem)).2

theorem count_eq : t.count = {p | Stored log p}.ncard := by
  classical
  have own : (t.entries.map Prod.snd).map (·.id) = t.entries.map Prod.fst := by
    rw [List.map_map]
    exact List.map_congr_left fun _ mem => h.id_eq_of_mem mem
  have once : (t.entries.map Prod.snd).Nodup := by
    refine List.Nodup.of_map (·.id) ?_
    rw [own]
    exact h.distinct
  have members : {p | Stored log p} = (t.entries.map Prod.snd).toFinset := by
    ext p
    rw [List.coe_toFinset, Set.mem_ofPred_eq, Set.mem_ofPred_eq, h.stored_iff_mem, List.mem_map]
    constructor
    · exact fun mem => ⟨_, mem, rfl⟩
    · rintro ⟨⟨id, p⟩, mem, rfl⟩
      rwa [← h.id_eq_of_mem mem] at mem
  rw [members, Set.ncard_coe_finset, List.toFinset_card_of_nodup once, List.length_map, count]

end Holds

theorem Calls.holds (calls : Calls (.empty ids) log t) : Holds log t := by
  induction calls with
  | start => exact .empty ids
  | next _ made ih => exact ih.next (effect_of_perform made)

theorem Holds.maps (h : Holds log t) : Maps log t where
  entry _ _ := h.id_eq_of_mem
  find id := ⟨t.find? id, rfl, h.find?_iff id⟩
  remove id := ⟨t.find? id, rfl, h.find?_iff id⟩
  contains id := ⟨t.contains id, rfl, h.contains_iff⟩
  count := h.count_eq
  insert_used p used := by
    obtain ⟨q, present⟩ := Table.contains_iff.mp (h.contains_iff.mpr used)
    exact perform_insert_of_present present
  insert_free p free := ⟨_, perform_insert_of_absent (h.find?_eq_none_iff.mpr free), rfl⟩

/-! ## Drawing ids -/

theorem Holds.perform_allocate {n : Nat} (h : Holds log t)
    (used : ∀ k < n, InUse log (t.ids.ahead k)) (free : ¬ InUse log (t.ids.ahead n)) :
    t.perform .allocate =
      some (.drawn (t.ids.ahead n), ⟨t.entries, t.ids.advance (n + 1)⟩) := by
  have drawn := allocate_of_first (fun k lt => h.contains_iff.mpr (used k lt))
    (h.contains_eq_false_iff.mpr free)
  rw [perform, drawn]
  rfl

theorem exists_first {n : Nat} (free : ¬ InUse log (ids.ahead n)) :
    ∃ m, (∀ k < m, InUse log (ids.ahead k)) ∧ ¬ InUse log (ids.ahead m) := by
  classical
  have some_free : ∃ n, ¬ InUse log (ids.ahead n) := ⟨n, free⟩
  exact ⟨Nat.find some_free, fun k lt => not_not.mp (Nat.find_min some_free lt),
    Nat.find_spec some_free⟩

theorem Effect.find?_eq_none (effect : Effect t call reply t') (absent : t.find? id = none)
    (elsewhere : ∀ q, call = .insert q → q.id ≠ id) : t'.find? id = none := by
  cases effect with
  | inserted =>
    rw [find?_cons, if_neg (elsewhere _ rfl).symm]
    exact absent
  | removed other =>
    rw [find?_remove, absent, ite_self]
  | quiet _ same =>
    rw [find?_of_entries same]
    exact absent

theorem Calls.find?_eq_none (calls : Calls t log t') (absent : t.find? id = none)
    (elsewhere : ∀ q reply, (.insert q, reply) ∈ log → q.id ≠ id) : t'.find? id = none := by
  induction calls with
  | start => exact absent
  | next _ made ih =>
    refine (effect_of_perform made).find?_eq_none ?_ ?_
    · exact ih fun q reply mem => elsewhere q reply (List.mem_append_left _ mem)
    · rintro q rfl
      exact elsewhere q _ (List.mem_append_right _ (List.mem_singleton_self _))

theorem Holds.draws (h : Holds log t) : Draws log t where
  terminates n free := by
    obtain ⟨m, used, free⟩ := exists_first free
    exact ⟨_, _, h.perform_allocate used free⟩
  first reply t' := by
    constructor
    · intro made
      obtain ⟨⟨id, t₁⟩, drawn, -⟩ := Option.map_eq_some_iff.mp made
      obtain ⟨n, rfl, -, unused⟩ := exists_of_allocate drawn
      obtain ⟨m, used, free⟩ := exists_first (h.contains_eq_false_iff.mp unused)
      rw [h.perform_allocate used free] at made
      cases made
      exact ⟨m, rfl, rfl, used, free⟩
    · rintro ⟨n, rfl, rfl, used, free⟩
      exact h.perform_allocate used free
  usable id t' made later t'' calls elsewhere p own := by
    obtain ⟨⟨id, t₁⟩, drawn, eq⟩ := Option.map_eq_some_iff.mp made
    cases eq
    obtain ⟨n, -, rfl, unused⟩ := exists_of_allocate drawn
    have absent := calls.find?_eq_none (Table.contains_eq_false_iff.mp unused) elsewhere
    exact ⟨_, perform_insert_of_absent (own ▸ absent)⟩

/-- A table that was called on in any way is the map that the calls tell of, and draws ids that
are not in use. -/
theorem Calls.as_map (calls : Calls (.empty ids) log t) : Maps log t ∧ Draws log t :=
  ⟨calls.holds.maps, calls.holds.draws⟩

/-- The first candidate comes twice more while it is in use. -/
theorem Calls.as_map_repeated : ∃ (p : Pending Nat) (log : List (Call Nat × Reply Nat))
    (t : Table Nat), Calls (.empty (.ofQueue [⟨5⟩, ⟨5⟩, ⟨5⟩, ⟨6⟩] 7)) log t ∧
      log = [(.allocate, .drawn ⟨5⟩), (.insert p, .inserted (.ok ())),
        (.allocate, .drawn ⟨6⟩)] ∧
      t.perform (.insert p) = some (.inserted (.error (.duplicateQueryId ⟨5⟩)), t) ∧
      t.count = 1 ∧ Maps log t ∧ Draws log t := by
  let peer : SocketAddress := ⟨⟨.inet, [127, 0, 0, 1], rfl⟩, 53, 0⟩
  let p : Pending Nat := .start ⟨5⟩ peer (.udp 0) .accepted .empty .empty
  let ids : IdSource := .ofQueue [⟨5⟩, ⟨5⟩, ⟨5⟩, ⟨6⟩] 7
  have first : (empty ids : Table Nat).perform .allocate =
      some (.drawn ⟨5⟩, ⟨[], ids.advance 1⟩) := by
    rw [perform, allocate_of_first (n := 0) (by simp) rfl]
    rfl
  have second : (⟨[(⟨5⟩, p)], ids.advance 1⟩ : Table Nat).perform .allocate =
      some (.drawn ⟨6⟩, ⟨[(⟨5⟩, p)], ids.advance 4⟩) := by
    rw [perform, allocate_of_first (n := 2) (by decide) (by decide)]
    rfl
  have inserted : (⟨[], ids.advance 1⟩ : Table Nat).perform (.insert p) =
      some (.inserted (.ok ()), ⟨[(⟨5⟩, p)], ids.advance 1⟩) := rfl
  let log : List (Call Nat × Reply Nat) :=
    [(.allocate, .drawn ⟨5⟩), (.insert p, .inserted (.ok ())), (.allocate, .drawn ⟨6⟩)]
  have calls : Calls (empty ids) log ⟨[(⟨5⟩, p)], ids.advance 4⟩ :=
    ((Calls.start.next first).next inserted).next second
  obtain ⟨maps, draws⟩ := calls.as_map
  have used : InUse log p.id := by
    refine ⟨p, ⟨[_], [_], rfl, fun e mem decides => ?_⟩, rfl⟩
    rw [List.mem_singleton.mp mem] at decides
    cases decides
  exact ⟨p, log, _, calls, rfl, maps.insert_used p used, rfl, maps, draws⟩

end Table

end ResolverGate
