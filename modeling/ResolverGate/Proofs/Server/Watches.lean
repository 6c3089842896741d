import Mathlib.Data.List.Nodup
import ResolverGate.Proofs.Engine.Table
import ResolverGate.Server.Dispatcher

/-! # Watches of connections

Which watches are live and which of them the connections know as their own. Watches are told
apart by their serial numbers, so that setting or ending one leaves all others as they are.
-/

namespace ResolverGate

/-- What the connection of a query at the stage is watched for. -/
def Stage.needs (s : Stage) : WatchKind → Bool
  | .readable => s.isReading
  | .writable => s = .writing
  | .idle => true

section Streams

variable {C : Type}

def Pending.stream? (p : Pending C) : Option (C × Stage) :=
  p.origin.connection?.map fun conn => (conn, p.stage)

def Table.stream? (t : Table C) (id : QueryId) : Option (C × Stage) :=
  (t.find? id).bind Pending.stream?

namespace Pending

variable {p : Pending C} {conn : C} {stage : Stage} {listener : Nat}

theorem stream?_of_udp (origin : p.origin = .udp listener) : p.stream? = none := by
  rw [stream?, origin, Origin.connection?, Option.map_none]

theorem stream?_of_tcp (origin : p.origin = .tcp conn) : p.stream? = some (conn, p.stage) := by
  rw [stream?, origin, Origin.connection?, Option.map_some]

theorem stream?_eq_some_iff : p.stream? = some (conn, stage) ↔
    p.origin = .tcp conn ∧ p.stage = stage := by
  cases origin : p.origin <;> simp [stream?, origin, Origin.connection?]

theorem connection?_eq : p.origin.connection? = p.stream?.map Prod.fst := by
  simp [stream?, Function.comp_def]

end Pending

namespace Table

variable {t t' : Table C} {id id' : QueryId} {p : Pending C} {conn : C} {stage : Stage}

theorem stream?_eq_some_iff : t.stream? id = some (conn, stage) ↔
    ∃ p, t.find? id = some p ∧ p.origin = .tcp conn ∧ p.stage = stage := by
  simp only [stream?, Option.bind_eq_some_iff, Pending.stream?_eq_some_iff]

theorem stream?_congr (h : t'.find? id = t.find? id) : t'.stream? id = t.stream? id := by
  rw [stream?, h, stream?]

theorem stream?_of_find (h : t.find? id = some p) (origin : p.origin = .tcp conn) :
    t.stream? id = some (conn, p.stage) :=
  stream?_eq_some_iff.mpr ⟨p, h, origin, rfl⟩

theorem stream?_mapConnection (f : C → C) : (t.mapConnection id f).2.stream? id' =
    if id' = id then (t.stream? id').map (Prod.map f fun stage => stage) else t.stream? id' := by
  simp only [stream?, find?_mapConnection]
  split
  · cases t.find? id' with
    | none => rfl
    | some p => cases h : p.origin <;> simp [Pending.stream?, h, Origin.map, Origin.connection?]
  · rfl

end Table

end Streams

theorem Connection.watch?_setWatch {S : Type} (c : Connection S) (n : Option Nat)
    (kind kind' : WatchKind) :
    (c.setWatch n kind).watch? kind' = if kind' = kind then n else c.watch? kind' := by
  cases kind <;> cases kind' <;> rfl

namespace Dispatcher

variable {S K : Type}

def slot? (d : Dispatcher S K) (id : QueryId) (kind : WatchKind) : Option Nat :=
  (d.engine.table.stream? id).bind fun s => s.1.watch? kind

def stage? (d : Dispatcher S K) (id : QueryId) : Option Stage :=
  (d.engine.table.stream? id).map Prod.snd

def Needs (d : Dispatcher S K) (id : QueryId) (kind : WatchKind) : Prop :=
  ∃ stage ∈ d.stage? id, stage.needs kind = true

def Live (d : Dispatcher S K) (id : QueryId) (kind : WatchKind) : Prop :=
  ∃ w ∈ d.watches, w.query = id ∧ w.kind = kind

/-- Serial numbers tell watches apart, and every live watch is the last of its kind that its
connection has. -/
structure Tidy (d : Dispatcher S K) : Prop where
  bounded : ∀ id kind n, d.slot? id kind = some n → n < d.nextSerial
  apart : ∀ id id' kind kind' n, d.slot? id kind = some n → d.slot? id' kind' = some n →
    id = id' ∧ kind = kind'
  held : ∀ w ∈ d.watches, d.slot? w.query w.kind = some w.serial
  once : (d.watches.map Watch.serial).Nodup

/-- The query under the id is watched for what it needs. -/
def Attends (d : Dispatcher S K) (id : QueryId) : Prop :=
  ∀ kind, d.Live id kind ↔ d.Needs id kind

structure Attentive (d : Dispatcher S K) : Prop extends Tidy d where
  attends : ∀ id, d.Attends id

/-- The watches that go on are those which are kept, and connections that go on keep theirs. -/
structure Ends (keep : QueryId → WatchKind → Prop) (d d' : Dispatcher S K) : Prop where
  sublist : d'.watches.Sublist d.watches
  mem_iff : ∀ w ∈ d.watches, w ∈ d'.watches ↔ keep w.query w.kind
  slot_eq : ∀ id kind, keep id kind → d'.slot? id kind = d.slot? id kind
  slot_sub : ∀ id kind n, d'.slot? id kind = some n → d.slot? id kind = some n
  serial : d'.nextSerial = d.nextSerial

/-- The dispatchers differ in what concerns the query under the id at most. -/
structure Touches (id : QueryId) (d d' : Dispatcher S K) : Prop where
  tidy : d'.Tidy
  live : ∀ other ≠ id, ∀ kind, d'.Live other kind ↔ d.Live other kind
  stage : ∀ other ≠ id, d'.stage? other = d.stage? other

variable {d d' d'' : Dispatcher S K} {id id' : QueryId} {kind kind' : WatchKind} {w w' : Watch}
  {keep : QueryId → WatchKind → Prop} {conn : Connection S} {stage : Stage}

theorem Touches.trans (h : Touches id d d') (h' : Touches id d' d'') : Touches id d d'' where
  tidy := h'.tidy
  live other hne kind := (h'.live other hne kind).trans (h.live other hne kind)
  stage other hne := (h'.stage other hne).trans (h.stage other hne)

/-- Who changes what concerns one query only has to see to that one. -/
theorem Attentive.touch (h : d.Attentive) (touches : Touches id d d') (own : d'.Attends id) :
    d'.Attentive := by
  refine ⟨touches.tidy, fun other => ?_⟩
  by_cases hne : other = id
  · exact hne ▸ own
  · intro kind
    rw [touches.live other hne kind, Needs, touches.stage other hne]
    exact h.attends other kind

namespace Tidy

variable (h : d.Tidy)

include h

/-- A connection has one live watch of a kind at most. -/
theorem watch_unique (hw : w ∈ d.watches) (hw' : w' ∈ d.watches) (query : w.query = w'.query)
    (kind : w.kind = w'.kind) : w = w' := by
  have held := h.held w hw
  rw [query, kind, h.held w' hw', Option.some.injEq] at held
  exact List.inj_on_of_nodup_map h.once hw hw' held.symm

theorem ends (e : Ends keep d d') : d'.Tidy := by
  refine ⟨fun id kind n hn => ?_, fun id id' kind kind' n hn hn' => ?_, fun w hw => ?_, ?_⟩
  · exact e.serial ▸ h.bounded id kind n (e.slot_sub id kind n hn)
  · exact h.apart id id' kind kind' n (e.slot_sub id kind n hn) (e.slot_sub id' kind' n hn')
  · have before := e.sublist.subset hw
    exact (e.slot_eq _ _ ((e.mem_iff w before).mp hw)).trans (h.held w before)
  · exact h.once.sublist (e.sublist.map Watch.serial)

end Tidy

theorem Ends.live_iff (e : Ends keep d d') : d'.Live id kind ↔ d.Live id kind ∧ keep id kind := by
  constructor
  · rintro ⟨w, hw, rfl, rfl⟩
    have before := e.sublist.subset hw
    exact ⟨⟨w, before, rfl, rfl⟩, (e.mem_iff w before).mp hw⟩
  · rintro ⟨⟨w, hw, rfl, rfl⟩, kept⟩
    exact ⟨w, (e.mem_iff w hw).mpr kept, rfl, rfl⟩

/-! ## Setting and ending watches -/

theorem Tidy.retire (h : d.Tidy) (hw : w ∈ d.watches) :
    Ends (fun id kind => ¬ (id = w.query ∧ kind = w.kind)) d (d.retire w) where
  sublist := List.erase_sublist
  mem_iff := by
    intro v hv
    rw [Dispatcher.retire, h.once.of_map.mem_erase_iff]
    constructor
    · rintro ⟨hne, -⟩ ⟨query, kind⟩
      exact hne (h.watch_unique hv hw query kind)
    · intro hne
      exact ⟨fun same => hne (same ▸ ⟨rfl, rfl⟩), hv⟩
  slot_eq _ _ _ := rfl
  slot_sub _ _ _ hn := hn
  serial := rfl

theorem connection?_eq : d.connection? id = (d.engine.table.stream? id).map Prod.fst := by
  simp only [connection?, Table.stream?, Pending.connection?_eq, Option.map_bind,
    Function.comp_def]

section SetWatch

variable {n : Option Nat} (engine : d'.engine = (d.engine.mapConnection id (·.setWatch n kind)).2)

include engine

theorem stream?_setWatch : d'.engine.table.stream? id' =
    if id' = id then (d.engine.table.stream? id').map (Prod.map (·.setWatch n kind) fun s => s)
    else d.engine.table.stream? id' := by
  rw [engine]
  exact Table.stream?_mapConnection _

theorem slot?_setWatch : d'.slot? id' kind' =
    if id' = id ∧ kind' = kind then (d.connection? id).bind fun _ => n else d.slot? id' kind' := by
  rw [slot?, stream?_setWatch engine, slot?, connection?_eq]
  by_cases own : id' = id
  · rw [own]
    cases d.engine.table.stream? id with
    | none => simp
    | some s => simp [Connection.watch?_setWatch]
  · simp [own]

theorem stage?_setWatch : d'.stage? id' = d.stage? id' := by
  rw [stage?, stream?_setWatch engine, stage?]
  split
  · cases d.engine.table.stream? id' <;> rfl
  · rfl

end SetWatch

theorem slot?_unwatch : (d.unwatch kind id).slot? id' kind' =
    if id' = id ∧ kind' = kind then none else d.slot? id' kind' := by
  unfold unwatch
  split
  · next hc =>
    split
    · next own =>
      rw [connection?_eq, Option.map_eq_none_iff] at hc
      rw [own.1, slot?, hc]
      rfl
    · rfl
  · next c hc =>
    refine (slot?_setWatch rfl).trans ?_
    rw [hc]
    rfl

theorem stage?_unwatch : (d.unwatch kind id).stage? id' = d.stage? id' := by
  unfold unwatch
  split
  · rfl
  · exact stage?_setWatch rfl

theorem nextSerial_unwatch : (d.unwatch kind id).nextSerial = d.nextSerial := by
  unfold unwatch
  split <;> rfl

theorem Tidy.owns_iff (h : d.Tidy) (hw : w ∈ d.watches) (hc : d.connection? id = some conn) :
    conn.owns w = true ↔ w.query = id := by
  have slot : d.slot? id w.kind = conn.watch? w.kind := by
    rw [connection?_eq] at hc
    obtain ⟨s, hs, rfl⟩ := Option.map_eq_some_iff.mp hc
    rw [slot?, hs]
    rfl
  rw [Connection.owns, decide_eq_true_iff, ← slot]
  constructor
  · intro own
    exact (h.apart _ _ _ _ _ (h.held w hw) own).1
  · rintro rfl
    exact h.held w hw

theorem Tidy.unwatch (h : d.Tidy) (kind : WatchKind) (id : QueryId) :
    Ends (fun id' kind' => ¬ (id' = id ∧ kind' = kind)) d (d.unwatch kind id) where
  sublist := by
    unfold Dispatcher.unwatch
    split
    · exact List.Sublist.refl _
    · exact List.filter_sublist
  mem_iff := by
    intro w hw
    unfold Dispatcher.unwatch
    split
    · next hc =>
      have : w.query ≠ id := by
        rintro rfl
        have held := h.held w hw
        rw [connection?_eq, Option.map_eq_none_iff] at hc
        simp [slot?, hc] at held
      simp [hw, this]
    · next c hc =>
      rw [List.mem_filter, ← h.owns_iff hw hc]
      cases c.owns w <;> simp [hw]
  slot_eq id' kind' kept := slot?_unwatch.trans (if_neg kept)
  slot_sub id' kind' n hn := by
    rw [slot?_unwatch] at hn
    split at hn
    · simp at hn
    · exact hn
  serial := nextSerial_unwatch

theorem stage?_watch : (d.watch kind id).stage? id' = d.stage? id' := by
  unfold watch
  split
  · rfl
  · exact (stage?_setWatch rfl).trans stage?_unwatch

theorem exists_connection (h : d.stage? id = some stage) : ∃ c, d.connection? id = some c := by
  obtain ⟨s, hs, -⟩ := Option.map_eq_some_iff.mp h
  exact ⟨s.1, by rw [connection?_eq, hs]; rfl⟩

theorem slot?_watch (h : d.stage? id = some stage) : (d.watch kind id).slot? id' kind' =
    if id' = id ∧ kind' = kind then some d.nextSerial else d.slot? id' kind' := by
  obtain ⟨c, hc⟩ := exists_connection h
  obtain ⟨c', hc'⟩ : ∃ c, (d.unwatch kind id).connection? id = some c :=
    exists_connection (stage?_unwatch.trans h)
  rw [watch, hc]
  refine (slot?_setWatch rfl).trans ?_
  rw [hc', slot?_unwatch, nextSerial_unwatch]
  split <;> rfl

theorem watches_watch (h : d.stage? id = some stage) : (d.watch kind id).watches =
    (d.unwatch kind id).watches ++ [⟨d.nextSerial, kind, id, (d.unwatch kind id).now⟩] := by
  obtain ⟨c, hc⟩ := exists_connection h
  simp only [watch, hc, nextSerial_unwatch]

theorem nextSerial_watch (h : d.stage? id = some stage) :
    (d.watch kind id).nextSerial = d.nextSerial + 1 := by
  obtain ⟨c, hc⟩ := exists_connection h
  simp only [watch, hc, nextSerial_unwatch]

namespace Tidy

variable (h : d.Tidy) (stream : d.stage? id = some stage)

include h stream

theorem live_watch : (d.watch kind id).Live id' kind' ↔
    d.Live id' kind' ∨ (id' = id ∧ kind' = kind) := by
  have others : (d.unwatch kind id).Live id' kind' ↔
      d.Live id' kind' ∧ ¬ (id' = id ∧ kind' = kind) := (h.unwatch kind id).live_iff
  have watched : (d.watch kind id).Live id' kind' ↔
      (d.unwatch kind id).Live id' kind' ∨ (id' = id ∧ kind' = kind) := by
    simp only [Live, watches_watch stream, List.mem_append, List.mem_singleton, or_and_right,
      exists_or, exists_eq_left, eq_comm]
  rw [watched, others]
  by_cases own : id' = id ∧ kind' = kind <;> simp [own]

theorem watch : (d.watch kind id).Tidy := by
  have ends := h.unwatch kind id
  have before := h.ends ends
  refine ⟨fun i k n hn => ?_, fun i i' k k' n hn hn' => ?_, fun w hw => ?_, ?_⟩
  · rw [slot?_watch stream] at hn
    rw [nextSerial_watch stream]
    split at hn
    · simp at hn
      omega
    · exact Nat.lt_succ_of_lt (h.bounded i k n hn)
  · -- No connection knows the serial number that comes next.
    have fresh {i k} (hn : d.slot? i k = some d.nextSerial) : False :=
      Nat.lt_irrefl _ (h.bounded i k _ hn)
    rw [slot?_watch stream] at hn hn'
    split at hn
    · next own =>
      split at hn'
      · next own' => exact ⟨own.1.trans own'.1.symm, own.2.trans own'.2.symm⟩
      · exact (fresh (hn'.trans hn.symm)).elim
    · split at hn'
      · exact (fresh (hn.trans hn'.symm)).elim
      · exact h.apart i i' k k' n hn hn'
  · rw [watches_watch stream, List.mem_append, List.mem_singleton] at hw
    rw [slot?_watch stream]
    rcases hw with hw | rfl
    · have was := ends.sublist.subset hw
      rw [if_neg ((ends.mem_iff w was).mp hw)]
      exact h.held w was
    · exact if_pos ⟨rfl, rfl⟩
  · rw [watches_watch stream, List.map_append]
    refine List.nodup_append.mpr ⟨before.once, by simp, ?_⟩
    rintro n hn m hm rfl
    obtain ⟨w, hw, rfl⟩ := List.mem_map.mp hn
    have held := h.bounded _ _ _ (h.held w (ends.sublist.subset hw))
    simp at hm
    omega

end Tidy

end Dispatcher

end ResolverGate
