import ResolverGate.Blocklist
import ResolverGate.Fault

/-! # Signals

Everything that the dispatcher reacts to, in one queue of bounded size.
-/

namespace ResolverGate

/-- `C` is a TCP connection. -/
inductive Signal (C : Type)
  | datagram (listener : Nat) (peer : SocketAddress) (payload : Bytes)
  | accepted (conn : C) (peer : SocketAddress)
  | backend (event : Event)
  /-- The channel to the engine is gone; no fault if it ended cleanly. -/
  | backendClosed (reason : Option Fault)
  | listenerFailed (fault : Fault)
  | replaceBlocklist (blocklist : Blocklist)

structure SignalQueue (C : Type) where
  capacity : Nat
  /-- The first is the next to be taken. -/
  waiting : List (Signal C)
  /-- Whether nobody takes signals any more. -/
  closed : Bool

namespace SignalQueue

variable {C : Type} (q : SignalQueue C)

def empty (capacity : Nat) : SignalQueue C := ⟨capacity, [], false⟩

/-- Hands a blocklist to the dispatcher, which must be there and have room. -/
def offerBlocklist (blocklist : Blocklist) : Except Fault (SignalQueue C) :=
  if q.closed then .error (.io "dispatcher unavailable: channel closed")
  else if q.capacity ≤ q.waiting.length then
    .error (.io "dispatcher unavailable: no available capacity")
  else .ok { q with waiting := q.waiting ++ [.replaceBlocklist blocklist] }

end SignalQueue

end ResolverGate
