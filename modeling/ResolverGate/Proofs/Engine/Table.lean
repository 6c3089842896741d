import ResolverGate.Engine

/-! # The table as a finite map

What can be found after each operation on the table, and which id is drawn for
a new query: the first candidate that is not in use.
-/

namespace ResolverGate

namespace Table

variable {C : Type} {t t' : Table C} {id id' : QueryId} {p p' : Pending C}

/-- No id stands for two entries. -/
def Distinct (t : Table C) : Prop := (t.entries.map Prod.fst).Nodup

@[simp] theorem find?_empty (ids : IdSource) : (empty ids : Table C).find? id = none := rfl

theorem contains_iff : t.contains id = true ↔ ∃ p, t.find? id = some p :=
  Option.isSome_iff_exists

theorem contains_eq_false_iff : t.contains id = false ↔ t.find? id = none := by
  simp [contains]

theorem lookup_map_update (l : List (QueryId × Pending C)) :
    (l.map fun e => if e.1 = id then (id, p) else e).lookup id' =
      if id' = id then (l.lookup id').map fun _ => p else l.lookup id' := by
  induction l with
  | nil => simp
  | cons e l ih =>
    obtain ⟨k, q⟩ := e
    simp only [List.map_cons, List.lookup_cons]
    by_cases hk : id' = k
    · subst hk
      by_cases hid : id' = id <;> simp [hid]
    · have hf : (id' == k) = false := by simpa using hk
      rw [hf, ← ih]
      by_cases hid : k = id
      · have : (id' == id) = false := by simpa [← hid] using hk
        simp [hid, List.lookup_cons, this]
      · simp [hid, List.lookup_cons, hf]

theorem find?_update : (t.update id p).find? id' =
    if id' = id then (t.find? id').map fun _ => p else t.find? id' :=
  lookup_map_update t.entries

theorem lookup_filter_ne (l : List (QueryId × Pending C)) :
    (l.filter (·.1 ≠ id)).lookup id' = if id' = id then none else l.lookup id' := by
  induction l with
  | nil => simp
  | cons e l ih =>
    obtain ⟨k, q⟩ := e
    by_cases hk : id' = k
    · subst hk
      by_cases hid : id' = id
      · simpa [hid] using ih
      · simp [hid]
    · have hf : (id' == k) = false := by simpa using hk
      rw [List.lookup_cons, hf, ← ih]
      by_cases hid : k = id <;> simp [hid, List.lookup_cons, hf]

theorem find?_remove : (t.remove id).find? id' = if id' = id then none else t.find? id' :=
  lookup_filter_ne t.entries

theorem insert_eq_ok_iff :
    t.insert p = .ok t' ↔
      t.find? p.id = none ∧ t' = { t with entries := (p.id, p) :: t.entries } := by
  unfold insert
  split
  · next h => simp [Option.isSome_iff_ne_none.mp h]
  · next h =>
    have : t.find? p.id = none := by simpa [contains] using h
    simp [this, eq_comm]

theorem insert_of_absent (h : t.find? p.id = none) :
    t.insert p = .ok { t with entries := (p.id, p) :: t.entries } :=
  insert_eq_ok_iff.mpr ⟨h, rfl⟩

theorem Distinct.update (h : t.Distinct) (id : QueryId) (p : Pending C) :
    (t.update id p).Distinct := by
  have : (t.entries.map fun e => if e.1 = id then (id, p) else e).map Prod.fst =
      t.entries.map Prod.fst := by
    rw [List.map_map]
    refine List.map_congr_left fun e _ => ?_
    by_cases he : e.1 = id <;> simp [he]
  rwa [Distinct, Table.update, this]

theorem Distinct.remove (h : t.Distinct) (id : QueryId) : (t.remove id).Distinct :=
  h.sublist (List.filter_sublist.map _)

theorem Distinct.insert (h : t.Distinct) (hi : t.insert p = .ok t') : t'.Distinct := by
  obtain ⟨hp, rfl⟩ := insert_eq_ok_iff.mp hi
  refine List.nodup_cons.mpr ⟨fun hm => ?_, h⟩
  obtain ⟨⟨k, q⟩, he, hk⟩ := List.mem_map.mp hm
  have := List.lookup_eq_none_iff.mp hp (k, q) he
  simp_all

theorem Distinct.find?_of_mem (h : t.Distinct) (hm : (id, p) ∈ t.entries) :
    t.find? id = some p := by
  obtain ⟨l₁, l₂, hl⟩ := List.append_of_mem hm
  refine List.lookup_eq_some_iff.mpr ⟨l₁, l₂, hl, fun e he => ?_⟩
  rw [Distinct, hl, List.map_append, List.map_cons] at h
  have hne := (List.nodup_append.mp h).2.2 e.1 (List.mem_map_of_mem he) id (by simp)
  exact bne_iff_ne.mpr hne.symm

theorem Distinct.update_self (h : t.Distinct) (hp : t.find? id = some p) : t.update id p = t := by
  have same : ∀ e ∈ t.entries, (if e.1 = id then (id, p) else e) = e := by
    rintro ⟨k, q⟩ he
    split
    · next hk =>
      subst hk
      rw [Option.some.inj (hp.symm.trans (h.find?_of_mem he))]
    · rfl
  rw [Table.update, List.map_congr_left same, List.map_id']

def put (t : Table C) (id : QueryId) : Option (Pending C) → Table C
  | some p => t.update id p
  | none => t.remove id

theorem find?_put_of_ne {o : Option (Pending C)} (h : id' ≠ id) :
    (t.put id o).find? id' = t.find? id' := by
  cases o with
  | some p => exact find?_update.trans (if_neg h)
  | none => exact find?_remove.trans (if_neg h)

theorem find?_put {o : Option (Pending C)} (h : t.contains id = true) :
    (t.put id o).find? id' = if id' = id then o else t.find? id' := by
  obtain ⟨q, hq⟩ := contains_iff.mp h
  cases o with
  | none => exact find?_remove
  | some p =>
    refine find?_update.trans ?_
    split
    · next hid => rw [hid, hq]; rfl
    · rfl

theorem Distinct.put (h : t.Distinct) (id : QueryId) (o : Option (Pending C)) :
    (t.put id o).Distinct := by
  cases o with
  | some p => exact h.update id p
  | none => exact h.remove id

theorem find?_mapConnection (f : C → C) : (t.mapConnection id f).2.find? id' =
    if id' = id then (t.find? id').map fun p => { p with origin := p.origin.map f }
    else t.find? id' := by
  unfold mapConnection
  split
  · next p hp =>
    refine find?_update.trans ?_
    split
    · next own => rw [own, hp]; rfl
    · rfl
  · next hp =>
    split
    · next own => rw [own, hp]; rfl
    · rfl

theorem update_comm (h : id ≠ id') :
    (t.update id p).update id' p' = (t.update id' p').update id p := by
  simp only [update, List.map_map]
  congr 1
  refine List.map_congr_left fun e _ => ?_
  by_cases he : e.1 = id
  · simp [he, h]
  · by_cases he' : e.1 = id' <;> simp [he, he', h.symm]

theorem remove_update_comm (h : id ≠ id') :
    (t.update id p).remove id' = (t.remove id').update id p := by
  simp only [update, remove, List.filter_map]
  congr 2
  refine List.filter_congr fun e _ => ?_
  by_cases he : e.1 = id <;> simp [he, h]

theorem remove_comm : (t.remove id).remove id' = (t.remove id').remove id := by
  simp only [remove, List.filter_filter]
  congr 1
  exact List.filter_congr fun e _ => Bool.and_comm _ _

theorem put_comm {o o' : Option (Pending C)} (h : id ≠ id') :
    (t.put id o).put id' o' = (t.put id' o').put id o := by
  cases o with
  | some p =>
    cases o' with
    | some p' => exact update_comm h
    | none => exact remove_update_comm h
  | none =>
    cases o' with
    | some p' => exact (remove_update_comm h.symm).symm
    | none => exact remove_comm

def drawn (t : Table C) (n : Nat) : Table C := { t with ids := t.ids.advance n }

@[simp] theorem find?_drawn (n : Nat) : (t.drawn n).find? id = t.find? id := rfl

theorem Distinct.drawn (h : t.Distinct) (n : Nat) : (t.drawn n).Distinct := h

/-- Drawing ends with the first candidate that is not in use. -/
theorem vainDraws?_eq {n : Nat} (h : ∀ k < n, t.contains (t.ids.ahead k) = true)
    (hn : t.contains (t.ids.ahead n) = false) : t.vainDraws? = some ⟨n, hn⟩ := by
  let draw (n : Nat) : Option (Nat ⊕ Option {n // t.contains (t.ids.ahead n) = false}) :=
    some (if h : t.contains (t.ids.ahead n) = false then .inr (some ⟨n, h⟩) else .inl (n + 1))
  have skip : ∀ k ≤ n, repeatM draw 0 = repeatM draw k := by
    intro k hk
    induction k with
    | zero => rfl
    | succ k ih =>
      rw [ih (by omega), repeatM_eq_of_monadTail]
      simp [repeatM.body, draw, h k (by omega)]
  have stop : repeatM draw n = some (some ⟨n, hn⟩) := by
    rw [repeatM_eq_of_monadTail]
    simp [repeatM.body, draw, hn]
  exact congrArg Option.join ((skip n (Nat.le_refl n)).trans stop)

theorem allocate_of_first {n : Nat} (h : ∀ k < n, t.contains (t.ids.ahead k) = true)
    (hn : t.contains (t.ids.ahead n) = false) :
    t.allocate = some (t.ids.ahead n, t.drawn (n + 1)) := by
  rw [allocate, vainDraws?_eq h hn]
  rfl

/-- The id that is drawn is not in use, and no entry changes. -/
theorem exists_of_allocate (h : t.allocate = some (id, t')) :
    ∃ n, id = t.ids.ahead n ∧ t' = t.drawn (n + 1) ∧ t.contains id = false := by
  obtain ⟨⟨n, hn⟩, -, hd⟩ := Option.map_eq_some_iff.mp h
  obtain ⟨rfl, rfl⟩ := Prod.mk.inj hd
  exact ⟨n, rfl, rfl, hn⟩

end Table

end ResolverGate
