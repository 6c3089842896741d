import ResolverGate.Config
import ResolverGate.Toml.Document

/-! # Configuration documents

A configuration written as a TOML document. Keys that it does not know are
passed over, and what is left out has its default.
-/

namespace ResolverGate

namespace ConfigDocument

open Toml

def asText : Value → Option String
  | .string s => some s
  | _ => none

def asBool : Value → Option Bool
  | .boolean b => some b
  | _ => none

def asWord : Value → Option UInt64
  | .integer n => if 0 ≤ n ∧ n < 0x10000000000000000 then some (UInt64.ofNat n.toNat) else none
  | _ => none

def asTexts : Value → Option (List String)
  | .array _ items => items.mapM asText
  | _ => none

def isEmpty : Value → Bool
  | .array _ [] => true
  | .table _ [] => true
  | _ => false

def formatOfName? (name : String) : Option LogFormat :=
  [LogFormat.text, .json].find? (·.name = name)

/-- A format's name, alone or as the key of something empty. -/
def asFormat : Value → Option LogFormat
  | .string s => formatOfName? s
  | .table _ [(name, v)] => if isEmpty v then formatOfName? name else none
  | _ => none

/-- The value of a section's field, by name in a table and by place in an array;
the default if there is none. A date or time is a table of nothing known. -/
def field {α : Type} (decode : Value → Option α) (s : Value) (name : String) (place : Nat)
    (default : α) : Option α :=
  let found := match s with
    | .table _ es => some (Entries.find? es name)
    | .array _ items => some items[place]?
    | .datetime _ => some none
    | _ => none
  match found with
  | none => none
  | some none => some default
  | some (some v) => decode v

def server (s : Value) : Option ServerConfig := do
  let c : ServerConfig := {}
  return { listen := ← field asTexts s "listen" 0 c.listen }

def frontend (s : Value) : Option FrontendConfig := do
  let c : FrontendConfig := {}
  return {
    tcpTimeoutSecs := ← field asWord s "tcp_timeout_secs" 0 c.tcpTimeoutSecs
    fdReserve := ← field asWord s "fd_reserve" 1 c.fdReserve
    acceptBackoffMs := ← field asWord s "accept_backoff_ms" 2 c.acceptBackoffMs
    maxUdpSize := ← field asWord s "max_udp_size" 3 c.maxUdpSize
    tcpInitialBuffer := ← field asWord s "tcp_initial_buffer" 4 c.tcpInitialBuffer
    minimizeAnswers := ← field asBool s "minimize_answers" 5 c.minimizeAnswers }

def backend (s : Value) : Option BackendConfig := do
  let c : BackendConfig := {}
  return { socketPath := ← field asText s "socket_path" 0 c.socketPath }

def blocklist (s : Value) : Option BlocklistConfig := do
  let c : BlocklistConfig := {}
  return {
    file := ← field (fun v => (asText v).map some) s "file" 0 c.file
    log := ← field asBool s "log" 1 c.log
    reloadIntervalSecs := ← field asWord s "reload_interval_secs" 2 c.reloadIntervalSecs }

def trustAnchor (s : Value) : Option TrustAnchorConfig := do
  let c : TrustAnchorConfig := {}
  return { file := ← field (fun v => (asText v).map some) s "file" 0 c.file }

def network (s : Value) : Option NetworkConfig := do
  let c : NetworkConfig := {}
  return { routeMonitor := ← field asBool s "route_monitor" 0 c.routeMonitor }

def logging (s : Value) : Option LoggingConfig := do
  let c : LoggingConfig := {}
  return {
    level := ← field asText s "level" 0 c.level
    format := ← field asFormat s "format" 1 c.format }

def ofValue? (s : Value) : Option Config := do
  return {
    server := ← field server s "server" 0 {}
    frontend := ← field frontend s "frontend" 1 {}
    backend := ← field backend s "backend" 2 {}
    blocklist := ← field blocklist s "blocklist" 3 {}
    trustAnchor := ← field trustAnchor s "trust_anchor" 4 {}
    network := ← field network s "network" 5 {}
    logging := ← field logging s "logging" 6 {} }

def ofText? (s : String) : Option Config := do
  ofValue? (.table .named (← Toml.parse? s))

end ConfigDocument

end ResolverGate
