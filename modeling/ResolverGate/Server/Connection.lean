import ResolverGate.Backend.Request

/-! # Connections and their watches

A watch waits for one thing on behalf of one query: that its connection can be
read, that it can be written, or that its time is up. A connection knows its own
watches by their serial numbers, and closing it ends them.
-/

namespace ResolverGate

inductive WatchKind
  | readable | writable | idle
  deriving DecidableEq, Repr

structure Watch where
  serial : Nat
  kind : WatchKind
  query : QueryId
  /-- When it was set. -/
  since : Nat
  deriving DecidableEq, Repr

/-- `S` is a socket. -/
structure Connection (S : Type) where
  socket : S
  readWatch : Option Nat
  writeWatch : Option Nat
  idleTimer : Option Nat
  deriving DecidableEq, Repr

namespace Connection

variable {S : Type} (c : Connection S)

def ofSocket (socket : S) : Connection S := ⟨socket, none, none, none⟩

/-- The serial number of the last watch of a kind, which may have fired. -/
def watch? : WatchKind → Option Nat
  | .readable => c.readWatch
  | .writable => c.writeWatch
  | .idle => c.idleTimer

def setWatch (serial : Option Nat) : WatchKind → Connection S
  | .readable => { c with readWatch := serial }
  | .writable => { c with writeWatch := serial }
  | .idle => { c with idleTimer := serial }

def owns (w : Watch) : Bool := c.watch? w.kind = some w.serial

end Connection

end ResolverGate
