import ResolverGate.Backend.Sending
import ResolverGate.Network.RouteMessage
import ResolverGate.Notice

/-! # Network monitor

Routing messages that matter to the engine are passed on to it, in order.
-/

namespace ResolverGate

inductive NetworkEvent
  | proposal (proposal : Proposal)
  | changed
  deriving DecidableEq, Repr

namespace NetworkEvent

def request : NetworkEvent → Request
  | proposal p => .replaceResolvers p
  | changed => .networkChanged

def notices : NetworkEvent → List Notice
  | proposal p => [.proposalSent p.ifIndex p.source p.addresses.length]
  | changed => []

def systemFamily? (family : UInt16) : Option AddressFamily :=
  if family = 2 then some .inet else if family = 10 then some .inet6 else none

/-- What a message means for the engine, and what to tell if it is discarded. -/
def classify : RouteMessage → Option NetworkEvent × List Notice
  | .arrival _ => (none, [])
  | .departure ifIndex => (some (proposal (.withdrawal ifIndex)), [])
  | .info _ => (some changed, [])
  | .proposal ifIndex source family payload =>
    match systemFamily? family with
    | none => (none, [.proposalFamilyInvalid ifIndex family])
    | some f =>
      match IpAddress.chunks f payload with
      | (addresses, []) => (some (proposal ⟨ifIndex, source, f, addresses⟩), [])
      | _ => (none, [.proposalLengthInvalid ifIndex payload.length])

end NetworkEvent

namespace NetworkMonitor

structure Report where
  events : List NetworkEvent
  result : Except Fault Unit
  sent : List Request
  notices : List Notice

/-- Passes one message on, as the `n`th request of the operation. -/
def handle (backend : Backend) (n : Nat) (message : RouteMessage) : Report :=
  match NetworkEvent.classify message with
  | (none, notices) => ⟨[], .ok (), [], notices⟩
  | (some event, notices) =>
    match backend n event.request with
    | .ok () => ⟨[event], .ok (), [event.request], notices⟩
    | .error e => ⟨[], .error e, [], notices⟩

/-- Nothing is passed on behind a request that could not be sent. -/
def handleAll (backend : Backend) : Nat → List RouteMessage → Report
  | _, [] => ⟨[], .ok (), [], []⟩
  | n, message :: messages =>
    let first := handle backend n message
    let notices := first.notices ++ first.events.flatMap (·.notices)
    match first.result with
    | .error e => ⟨[], .error e, first.sent, notices⟩
    | .ok () =>
      let others := handleAll backend (n + first.sent.length) messages
      ⟨first.events ++ others.events, others.result, first.sent ++ others.sent,
        notices ++ others.notices⟩

def handleDatagram (backend : Backend) (datagram : Bytes) : Report :=
  handleAll backend 0 (RouteMessage.ofDatagram datagram)

end NetworkMonitor

end ResolverGate
