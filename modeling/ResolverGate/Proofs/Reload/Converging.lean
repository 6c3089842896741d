import Mathlib.Data.List.Nodup
import Mathlib.Logic.Relation
import ResolverGate.Reload.Job

/-! # Reloads of a source that changes

A check looks at the time of the source before it loads, and the source may be written or
removed in between. The set that is handed over may then be of a later time than the one
remembered; but that time does not come back, so that the next check sees a difference.
-/

namespace ResolverGate

variable {T : Type}

/-- A source of blocklists over time. Each write has a time of its own. -/
structure BlocklistSource (T : Type) where
  /-- What is there, and since when; none if it does not exist. -/
  current : Option (T × Blocklist)
  /-- What has ever been written. -/
  written : List (T × Blocklist)
  distinct : (written.map Prod.fst).Nodup
  current_mem : ∀ version ∈ current, version ∈ written

namespace BlocklistSource

def times (s : BlocklistSource T) : List T := s.written.map Prod.fst

def modified (s : BlocklistSource T) : Option T := s.current.map Prod.fst

def content (s : BlocklistSource T) : Blocklist := (s.current.map Prod.snd).getD .empty

def absent : BlocklistSource T := ⟨none, [], List.nodup_nil, by simp⟩

def write (s : BlocklistSource T) (t : T) (content : Blocklist) (fresh : t ∉ s.times) :
    BlocklistSource T where
  current := some (t, content)
  written := (t, content) :: s.written
  distinct := List.nodup_cons.mpr ⟨fresh, s.distinct⟩
  current_mem := by simp

def remove (s : BlocklistSource T) : BlocklistSource T where
  current := none
  written := s.written
  distinct := s.distinct
  current_mem := by simp

inductive Change : BlocklistSource T → BlocklistSource T → Prop
  | write {s : BlocklistSource T} (t : T) (content : Blocklist) (fresh : t ∉ s.times) :
      Change s (s.write t content fresh)
  | remove {s : BlocklistSource T} : Change s s.remove

abbrev Changes : BlocklistSource T → BlocklistSource T → Prop := Relation.ReflTransGen Change

/-- Loading gives what is there, unless it fails. Nothing is said of what it gives if the
source does not exist. -/
def Loads (s : BlocklistSource T) (loaded : Except Fault Blocklist) : Prop :=
  ∀ t content blocklist, s.current = some (t, content) → loaded = .ok blocklist →
    blocklist = content

variable {s s' : BlocklistSource T} {t : T} {content : Blocklist}

theorem mem_times_of_current (h : s.current = some (t, content)) : t ∈ s.times :=
  List.mem_map_of_mem (s.current_mem _ h)

theorem eq_of_mem_written {content' : Blocklist} (h : (t, content) ∈ s.written)
    (h' : (t, content') ∈ s.written) : content = content' :=
  congrArg Prod.snd (List.inj_on_of_nodup_map s.distinct h h' rfl)

theorem mem_times_of_changes (h : Changes s s') (known : t ∈ s.times) : t ∈ s'.times := by
  induction h with
  | refl => exact known
  | tail _ change ih =>
    cases change with
    | write t content fresh => exact List.mem_cons_of_mem _ ih
    | remove => exact ih

/-- A time does not come back: a source that has one of the times before was not changed. -/
theorem eq_of_changes (h : Changes s s') (known : t ∈ s.times)
    (current : s'.current = some (t, content)) : s' = s := by
  cases h with
  | refl => rfl
  | tail earlier change =>
    cases change with
    | write t' content' fresh =>
      obtain ⟨rfl, rfl⟩ : t' = t ∧ content' = content := by simpa [write] using current
      exact absurd (mem_times_of_changes earlier known) fresh
    | remove => exact absurd current (by simp [remove])

end BlocklistSource

namespace ReloadJob

/-- The job between its source and the consumer of its sets. -/
structure World (T : Type) where
  source : BlocklistSource T
  job : ReloadJob T
  /-- The set that the consumer took last. -/
  held : Blocklist

namespace World

variable {w : World T}

/-- The set held is the one written at the time remembered, or empty if there is none. -/
structure Described (w : World T) : Prop where
  empty : w.job.lastModified = none → w.held = .empty
  written : ∀ t, w.job.lastModified = some t → (t, w.held) ∈ w.source.written

/-- What is kept of that: as long as the source has the time remembered, what is there is
the set held. -/
structure Accounted (w : World T) : Prop where
  empty : w.job.lastModified = none → w.held = .empty
  known : ∀ t, w.job.lastModified = some t → t ∈ w.source.times
  current : ∀ t content, w.job.lastModified = some t → w.source.current = some (t, content) →
    w.held = content

theorem Described.accounted (h : w.Described) : w.Accounted where
  empty := h.empty
  known t remembered := List.mem_map_of_mem (h.written t remembered)
  current t _ remembered current :=
    w.source.eq_of_mem_written (h.written t remembered) (w.source.current_mem _ current)

theorem Accounted.changes {source : BlocklistSource T} (h : w.Accounted)
    (changes : w.source.Changes source) : Accounted { w with source } where
  empty := h.empty
  known t remembered := BlocklistSource.mem_times_of_changes changes (h.known t remembered)
  current t content remembered current := by
    obtain rfl := BlocklistSource.eq_of_changes changes (h.known t remembered) current
    exact h.current t content remembered current

theorem Accounted.held_eq (h : w.Accounted) (same : w.source.modified = w.job.lastModified) :
    w.held = w.source.content := by
  unfold BlocklistSource.modified at same
  unfold BlocklistSource.content
  cases current : w.source.current with
  | none => exact h.empty (by simpa [current] using same.symm)
  | some version => exact h.current _ _ (by simpa [current] using same.symm) current

end World

variable [DecidableEq T]

/-! ## What a check does -/

inductive Outcome (job : ReloadJob T) (c : ReloadContext T) :
    Except Fault Bool × ReloadJob T × ReloadEffects → Prop
  | unchanged (same : c.modified = job.lastModified) :
      Outcome job c (.ok false, job, ⟨false, none, []⟩)
  | failed (differs : c.modified ≠ job.lastModified) (fault : Fault) (notices : List Notice) :
      Outcome job c (.error fault, job, ⟨c.modified.isSome, none, notices⟩)
  | replaced (differs : c.modified ≠ job.lastModified) {blocklist : Blocklist}
      (removed : c.modified = none → blocklist = .empty)
      (loaded : ∀ t, c.modified = some t → c.loaded = .ok blocklist) (notices : List Notice) :
      Outcome job c (.ok true, ⟨c.modified⟩, ⟨c.modified.isSome, some blocklist, notices⟩)

theorem outcome_check (job : ReloadJob T) (c : ReloadContext T) : Outcome job c (job.check c) := by
  obtain ⟨modified, loaded, replace⟩ := c
  unfold check
  split
  · next same => exact .unchanged same
  next differs =>
  cases modified with
  | none =>
    simp only
    cases replace .empty with
    | error fault => exact .failed differs _ _
    | ok => exact .replaced differs (fun _ => rfl) (by simp) _
  | some t =>
    cases loaded with
    | error fault => exact .failed differs _ _
    | ok blocklist =>
      simp only
      cases replace blocklist with
      | error fault => exact .failed differs _ _
      | ok => exact .replaced differs (by simp) (fun _ _ => rfl) _

/-- A check. The source may change while it is under way: before it is loaded from, and
after. Loading may fail, and so may the consumer. -/
inductive Checks (w : World T) : Except Fault Bool → ReloadEffects → World T → Prop
  | intro {loading after : BlocklistSource T} {loaded : Except Fault Blocklist}
      {result : Except Fault Bool} {job : ReloadJob T} {fx : ReloadEffects}
      (replace : Blocklist → Except Fault Unit) (early : w.source.Changes loading)
      (loads : loading.Loads loaded) (late : loading.Changes after)
      (ran : w.job.check ⟨w.source.modified, loaded, replace⟩ = (result, job, fx)) :
      Checks w result fx ⟨after, job, fx.delivered.getD w.held⟩

inductive Step : World T → World T → Prop
  | change {w : World T} {source : BlocklistSource T} (h : w.source.Change source) :
      Step w { w with source }
  | check {w w' : World T} {result : Except Fault Bool} {fx : ReloadEffects}
      (h : Checks w result fx w') : Step w w'

section Sound

variable {w₀ w w' : World T} {result : Except Fault Bool} {fx : ReloadEffects}

theorem checks_of_loaded {loading : BlocklistSource T} {t t' : T} {content : Blocklist}
    (modified : w.source.modified = some t) (differs : some t ≠ w.job.lastModified)
    (early : w.source.Changes loading) (current : loading.current = some (t', content)) :
    Checks w (.ok true) ⟨true, some content, []⟩ ⟨loading, ⟨some t⟩, content⟩ := by
  have loads : loading.Loads (.ok content) := by
    intro _ _ _ current' loaded
    obtain rfl := Except.ok.inj loaded
    exact congrArg Prod.snd (Option.some.inj (current.symm.trans current'))
  refine .intro (fun _ => .ok ()) early loads .refl ?_
  rw [modified, check, if_neg differs]
  rfl

theorem World.Accounted.checks (h : w.Accounted) (checked : Checks w result fx w') :
    w'.Accounted := by
  obtain ⟨replace, early, loads, late, ran⟩ := checked
  have changes := early.trans late
  have outcome := ran ▸ outcome_check w.job _
  cases outcome with
  | unchanged same => exact h.changes changes
  | failed differs fault notices => exact h.changes changes
  | replaced differs removed loaded notices =>
    have known (t) (modified : w.source.modified = some t) : t ∈ w.source.times := by
      obtain ⟨version, current, rfl⟩ := Option.map_eq_some_iff.mp modified
      exact BlocklistSource.mem_times_of_current current
    refine ⟨removed, fun t modified => ?_, fun t content modified current => ?_⟩
    · exact BlocklistSource.mem_times_of_changes changes (known t modified)
    · -- The time is older than the loading, so that what was loaded is what is still there.
      have earlier := BlocklistSource.mem_times_of_changes early (known t modified)
      obtain rfl := BlocklistSource.eq_of_changes late earlier current
      exact loads t content _ current (loaded t modified)

theorem World.Accounted.step (h : w.Accounted) (step : Step w w') : w'.Accounted := by
  cases step with
  | change change => exact h.changes (.single change)
  | check checked => exact h.checks checked

theorem World.Accounted.run (h : w.Accounted) (run : Relation.ReflTransGen Step w w') :
    w'.Accounted := by
  induction run with
  | refl => exact h
  | tail _ step ih => exact ih.step step

structure Sound (w : World T) (result : Except Fault Bool) (fx : ReloadEffects) (w' : World T) :
    Prop where
  /-- If the source stayed as it was, the consumer holds what is there. -/
  current : ∀ changed, result = .ok changed → w'.source.current = w.source.current →
    w'.held = w'.source.content
  /-- A failure leaves the job and the consumer as they were. -/
  failed : ∀ fault, result = .error fault → w'.job = w.job ∧ w'.held = w.held
  /-- After a failure, a check that finds the same time tries to load again. -/
  again : ∀ fault, result = .error fault → ∀ c : ReloadContext T, c.modified = w.source.modified →
    (w'.job.check c).1 ≠ .ok false ∧ (w'.job.check c).2.2.loaded = c.modified.isSome
  silent : result = .ok false → fx.delivered = none

/-- However the source changes and whatever fails, from a set that the time remembered
describes, every check is sound. -/
theorem sound_of_run (described : w₀.Described) (run : Relation.ReflTransGen Step w₀ w)
    (checked : Checks w result fx w') : Sound w result fx w' := by
  have accounted := (described.accounted.run run).checks checked
  obtain ⟨replace, early, loads, late, ran⟩ := checked
  have outcome := ran ▸ outcome_check w.job _
  cases outcome with
  | unchanged same =>
    refine ⟨fun _ _ stayed => accounted.held_eq ?_, by simp, by simp, fun _ => rfl⟩
    exact (congrArg (Option.map Prod.fst) stayed).trans same
  | failed differs fault notices =>
    refine ⟨by simp, fun _ _ => ⟨rfl, rfl⟩, fun _ _ c modified => ?_, by simp⟩
    have outcome := outcome_check w.job c
    generalize w.job.check c = ended at outcome ⊢
    cases outcome with
    | unchanged same => exact absurd (modified.symm.trans same) differs
    | failed => exact ⟨by simp, rfl⟩
    | replaced => exact ⟨by simp, rfl⟩
  | replaced differs removed loaded notices =>
    refine ⟨fun _ _ stayed => accounted.held_eq ?_, by simp, by simp, by simp⟩
    exact congrArg (Option.map Prod.fst) stayed

/-- The source is written again while a check is under way, which hands the new set over
under the old time. The next check finds the new time. -/
theorem sound_of_run_overtaken :
    let ads := Blocklist.ofNames ["ads.example."]
    let both := Blocklist.ofNames ["ads.example.", "tracker.example."]
    let early := BlocklistSource.absent.write 100 ads (by decide)
    let late := early.write 200 both (by decide)
    let overtaken : World Nat := ⟨late, ⟨some 100⟩, both⟩
    Checks ⟨early, ⟨none⟩, .empty⟩ (.ok true) ⟨true, some both, []⟩ overtaken ∧
      Sound overtaken (.ok true) ⟨true, some both, []⟩ ⟨late, ⟨some 200⟩, both⟩ := by
  intro ads both early late overtaken
  have first : Checks ⟨early, ⟨none⟩, .empty⟩ (.ok true) ⟨true, some both, []⟩ overtaken :=
    checks_of_loaded rfl (by decide) (.single (.write 200 both _)) rfl
  have second : Checks overtaken (.ok true) ⟨true, some both, []⟩ ⟨late, ⟨some 200⟩, both⟩ :=
    checks_of_loaded rfl (by decide) .refl rfl
  have run : Relation.ReflTransGen Step ⟨early, ⟨none⟩, .empty⟩ overtaken := .single (.check first)
  exact ⟨first, sound_of_run ⟨fun _ => rfl, by simp⟩ run second⟩

end Sound

end ReloadJob

end ResolverGate
