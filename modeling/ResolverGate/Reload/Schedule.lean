import ResolverGate.Reload.Job

/-! # Reload schedule

The reload job under a clock: a check at the start and one every interval, until
shutdown is asked for.
-/

namespace ResolverGate

structure ReloadSchedule (T : Type) where
  job : ReloadJob T
  intervalSecs : Nat
  /-- Milliseconds since the start. -/
  now : Nat
  /-- Checks done so far. -/
  ticks : Nat
  stopped : Bool
  deriving DecidableEq, Repr

namespace ReloadSchedule

variable {T : Type} [DecidableEq T]

/-- Intervals are at least a second. -/
def start (job : ReloadJob T) (intervalSecs : Nat) : ReloadSchedule T × List Notice :=
  let intervalSecs := max intervalSecs 1
  (⟨job, intervalSecs, 0, 0, false⟩, [.reloadStarted intervalSecs])

variable (s : ReloadSchedule T)

def due : Nat := s.ticks * s.intervalSecs * 1000

def tick (c : ReloadContext T) : ReloadSchedule T × ReloadEffects :=
  let (result, job, fx) := s.job.check c
  let notices := match result with
    | .error e => [Notice.reloadFailed e]
    | .ok _ => []
  ({ s with job, ticks := s.ticks + 1 }, { fx with notices := fx.notices ++ notices })

/-- Does the checks that are due by `s.now`, at most `most` of them. -/
def catchUp (c : ReloadContext T) (s : ReloadSchedule T) :
    (most : Nat) → ReloadSchedule T × List ReloadEffects
  | 0 => (s, [])
  | most + 1 =>
    if s.due ≤ s.now then
      let (s, fx) := s.tick c
      let (s, fxs) := catchUp c s most
      (s, fx :: fxs)
    else (s, [])

def advance (c : ReloadContext T) (ms : Nat) : ReloadSchedule T × List ReloadEffects :=
  let s := { s with now := s.now + ms }
  if s.stopped then (s, []) else catchUp c s (s.now + 1 - s.ticks)

def cancel : ReloadSchedule T × List Notice :=
  if s.stopped then (s, []) else ({ s with stopped := true }, [.reloadStopped])

end ReloadSchedule

/-- The background jobs that run; the reload job is the only one there is. -/
structure JobRunner (T : Type) where
  reload : Option (ReloadSchedule T)
  /-- Whether the jobs are told of a shutdown. -/
  sharesShutdown : Bool
  deriving DecidableEq, Repr

namespace JobRunner

variable {T : Type} [DecidableEq T]

def start (job : Option (ReloadJob T × Nat)) (sharesShutdown : Bool) :
    JobRunner T × List Notice :=
  match job with
  | some (job, intervalSecs) =>
    let (s, notices) := ReloadSchedule.start job intervalSecs
    (⟨some s, sharesShutdown⟩, notices ++ [.jobsStarted 1])
  | none => (⟨none, sharesShutdown⟩, [.jobsStarted 0])

variable (r : JobRunner T)

def count : Nat := r.reload.toList.length

/-- Whether each job has ended. -/
def finished : List Bool := r.reload.toList.map (·.stopped)

def advance (c : ReloadContext T) (ms : Nat) : JobRunner T × List ReloadEffects :=
  match r.reload with
  | some s => let (s, fxs) := s.advance c ms; ({ r with reload := some s }, fxs)
  | none => (r, [])

def shutDown : JobRunner T × List Notice :=
  match r.reload, r.sharesShutdown with
  | some s, true => let (s, notices) := s.cancel; ({ r with reload := some s }, notices)
  | _, _ => (r, [])

end JobRunner

end ResolverGate
