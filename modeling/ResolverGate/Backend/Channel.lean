import ResolverGate.Backend.Payload
import ResolverGate.FilePlace
import ResolverGate.Server.Signal

/-! # The channel to the engine

A byte stream each way. What arrives turns into signals whatever the pieces it
arrives in, up to the first thing wrong with it; behind the signal that the
channel is gone nothing follows.
-/

namespace ResolverGate

/-- There is no engine under this path. -/
def Fault.noEngine (path : String) : Fault :=
  FilePlace.fault ("connect " ++ path) FilePlace.notFound

/-- The receiving side: octets of an incomplete frame, none once it has ended. -/
structure EventReader where
  buffer : Option Bytes
  deriving DecidableEq, Repr

namespace EventReader

variable {C : Type}

def start : EventReader := ⟨some []⟩

def eventsOf : List Frame → List Event × Option Fault
  | [] => ([], none)
  | f :: fs =>
    match Event.ofFrame f with
    | .error e => ([], some e)
    | .ok none => eventsOf fs
    | .ok (some event) =>
      let (events, stop) := eventsOf fs
      (event :: events, stop)

def receive (r : EventReader) (chunk : Bytes) : List (Signal C) × EventReader :=
  match r.buffer with
  | none => ([], r)
  | some buffer =>
    let (frames, rest, oversized) := Frame.decodeAll (buffer ++ chunk)
    let (events, malformed) := eventsOf frames
    let stop := malformed <|> oversized.map fun o => .backendProtocol (.oversizedFrame o.length)
    let signals := events.map Signal.backend
    match stop with
    | some fault => (signals ++ [.backendClosed (some fault)], ⟨none⟩)
    | none => (signals, ⟨some rest⟩)

def finish (r : EventReader) : List (Signal C) × EventReader :=
  match r.buffer with
  | none => ([], r)
  | some [] => ([.backendClosed none], ⟨none⟩)
  | some _ => ([.backendClosed (some (.backendProtocol .unfinishedFrame))], ⟨none⟩)

end EventReader

/-- The sending side, which stops at a request that no frame can carry. -/
structure RequestWriter where
  stopped : Bool
  deriving DecidableEq, Repr

namespace RequestWriter

def start : RequestWriter := ⟨false⟩

/-- Takes a request and writes it as soon as it can; gives what is written. -/
def send (w : RequestWriter) (request : Request) : Except Fault (Bytes × RequestWriter) :=
  if w.stopped then .error .backendUnavailable
  else
    match request.toFrame.encode with
    | .ok m => .ok (m, w)
    | .error _ => .ok ([], ⟨true⟩)

end RequestWriter

end ResolverGate
