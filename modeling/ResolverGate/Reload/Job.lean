import ResolverGate.Blocklist
import ResolverGate.Notice

/-! # Blocklist reloading

A check compares the source's modification time with that of the set last
handed over, and hands a new set over if they differ. A source that is gone
means an empty set.
-/

namespace ResolverGate

/-- What a check finds and meets. `T` are modification times. -/
structure ReloadContext (T : Type) where
  /-- None if the source does not exist. -/
  modified : Option T
  /-- What loading gives. -/
  loaded : Except Fault Blocklist
  /-- How the consumer takes a set. -/
  replace : Blocklist → Except Fault Unit

structure ReloadJob (T : Type) where
  lastModified : Option T
  deriving DecidableEq, Repr

/-- What a check did besides its result. -/
structure ReloadEffects where
  /-- Whether the source was loaded from. -/
  loaded : Bool
  delivered : Option Blocklist
  notices : List Notice

namespace ReloadJob

variable {T : Type} [DecidableEq T] (job : ReloadJob T)

/-- Gives whether a new set was handed over. A check that fails changes nothing,
so that the next one tries again. -/
def check (c : ReloadContext T) : Except Fault Bool × ReloadJob T × ReloadEffects :=
  if c.modified = job.lastModified then (.ok false, job, ⟨false, none, []⟩)
  else
    let (blocklist, notices) := match c.modified with
      | some _ => (c.loaded, [])
      | none => (.ok .empty, [Notice.blocklistSourceRemoved])
    let loaded := c.modified.isSome
    match blocklist with
    | .error e => (.error e, job, ⟨loaded, none, notices⟩)
    | .ok blocklist =>
      match c.replace blocklist with
      | .error e => (.error e, job, ⟨loaded, none, notices⟩)
      | .ok () => (.ok true, ⟨c.modified⟩, ⟨loaded, some blocklist, notices⟩)

end ReloadJob

end ResolverGate
