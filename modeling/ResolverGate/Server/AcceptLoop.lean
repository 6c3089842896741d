import ResolverGate.Server.Signal

/-! # Accepting connections

The loop that takes connections off a listening socket. It looks at the
descriptor budget before each one and pauses while descriptors are scarce.
-/

namespace ResolverGate

inductive AcceptAction
  | retry
  /-- Accept nothing for a while. -/
  | pause
  | fatal
  deriving DecidableEq, Repr

inductive AcceptError
  /-- An error number of the system. -/
  | system (number : Nat) (cause : String)
  | interrupted
  | wouldBlock
  | aborted
  | reset
  | other (cause : String)
  deriving DecidableEq, Repr

namespace AcceptError

/-- Numbers that say that the process or the system is out of descriptors. -/
def outOfDescriptors : List Nat := [23, 24]

/-- Interrupted, would block, connection aborted, connection reset. -/
def transient : List Nat := [4, 11, 103, 104]

def action : AcceptError → AcceptAction
  | system number _ =>
    if number ∈ outOfDescriptors then .pause
    else if number ∈ transient then .retry
    else .fatal
  | interrupted | wouldBlock | aborted | reset => .retry
  | other _ => .fatal

def cause : AcceptError → String
  | system _ cause => cause
  | interrupted => "operation interrupted"
  | wouldBlock => "operation would block"
  | aborted => "connection aborted"
  | reset => "connection reset"
  | other cause => cause

end AcceptError

/-- Whether open descriptors and the reserve reach the limit; counts saturate at
64 bits. -/
def nearLimit (limit opened reserve : Nat) : Bool :=
  limit ≤ min (opened + reserve) 0xFFFFFFFFFFFFFFFF

inductive AcceptStage
  /-- About to look at the budget. -/
  | looking
  /-- Waiting for a connection. -/
  | waiting
  | pausing (resume : Nat)
  | ended
  deriving DecidableEq, Repr

/-- What the loop meets; `C` is a connection. -/
inductive AcceptInput (C : Type)
  | budget (near : Bool)
  | result (accepted : Except AcceptError (C × SocketAddress))
  /-- The clock shows this. -/
  | clock (now : Nat)
  | shutdown
  deriving Repr

structure AcceptLoop where
  backoff : Nat
  now : Nat
  stage : AcceptStage
  /-- Whether nobody takes its signals any more. -/
  closed : Bool
  deriving DecidableEq, Repr

namespace AcceptLoop

variable {C : Type}

def start (backoff : Nat) : AcceptLoop := ⟨backoff, 0, .looking, false⟩

variable (l : AcceptLoop)

def pause : AcceptLoop := { l with stage := .pausing (l.now + l.backoff) }

/-- Hands a signal over. The loop ends if nobody takes it, or if it is to. -/
def hand (s : Signal C) (next : AcceptStage) : List (Signal C) × AcceptLoop :=
  if l.closed then ([], { l with stage := .ended }) else ([s], { l with stage := next })

/-- The signals that an input leads to; inputs that the loop is not waiting for
change nothing. -/
def step (i : AcceptInput C) : List (Signal C) × AcceptLoop :=
  match l.stage, i with
  | .ended, _ => ([], l)
  | _, .shutdown => ([], { l with stage := .ended })
  | .looking, .budget true => ([], l.pause)
  | .looking, .budget false => ([], { l with stage := .waiting })
  | .waiting, .result (.ok (conn, peer)) => l.hand (.accepted conn peer) .looking
  | .waiting, .result (.error e) =>
    match e.action with
    | .retry => ([], { l with stage := .looking })
    | .pause => ([], l.pause)
    | .fatal => l.hand (.listenerFailed (.io ("accept: " ++ e.cause))) .ended
  | .pausing resume, .clock now =>
    ([], { l with now, stage := if resume ≤ now then .looking else l.stage })
  | _, .clock now => ([], { l with now })
  | _, _ => ([], l)

end AcceptLoop

end ResolverGate
