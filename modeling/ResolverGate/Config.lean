import ResolverGate.Address.Reading
import ResolverGate.Text.Blank

/-! # Configuration

What an operator may set, section by section, with the values that hold where
nothing is said, and what a configuration must satisfy.
-/

namespace ResolverGate

structure ServerConfig where
  /-- Each address gets a UDP and a TCP listener. -/
  listen : List String := ["127.0.0.1:53", "[::1]:53"]
  deriving DecidableEq, Repr

structure FrontendConfig where
  /-- From the accept of a connection to its last octet. -/
  tcpTimeoutSecs : UInt64 := 15
  /-- Descriptors kept free when connections are accepted. -/
  fdReserve : UInt64 := 5
  acceptBackoffMs : UInt64 := 1000
  maxUdpSize : UInt64 := 65535
  /-- Room for a TCP query until its length is known. -/
  tcpInitialBuffer : UInt64 := 512
  minimizeAnswers : Bool := true
  deriving DecidableEq, Repr

structure BackendConfig where
  socketPath : String := "/var/run/ferrous-frontend/engine.sock"
  deriving DecidableEq, Repr

structure BlocklistConfig where
  /-- Nothing is blocked without one. -/
  file : Option String := none
  log : Bool := false
  reloadIntervalSecs : UInt64 := 30
  deriving DecidableEq, Repr

structure TrustAnchorConfig where
  file : Option String := some "/var/lib/ferrous-frontend/root.key"
  deriving DecidableEq, Repr

structure NetworkConfig where
  routeMonitor : Bool := true
  deriving DecidableEq, Repr

inductive LogFormat
  | text | json
  deriving DecidableEq, Repr

def LogFormat.name : LogFormat → String
  | text => "text"
  | json => "json"

structure LoggingConfig where
  level : String := "info"
  format : LogFormat := .text
  deriving DecidableEq, Repr

structure Config where
  server : ServerConfig := {}
  frontend : FrontendConfig := {}
  backend : BackendConfig := {}
  blocklist : BlocklistConfig := {}
  trustAnchor : TrustAnchorConfig := {}
  network : NetworkConfig := {}
  logging : LoggingConfig := {}
  deriving DecidableEq, Repr

inductive ConfigFault
  | noListenAddress
  | badListenAddress (text : String)
  | zeroTcpTimeout
  | shortTcpBuffer
  | noSocketPath
  deriving DecidableEq, Repr

def ConfigFault.text : ConfigFault → String
  | noListenAddress => "No listen addresses configured"
  | badListenAddress text =>
      "Invalid listen address '" ++ text ++ "': invalid socket address syntax"
  | zeroTcpTimeout => "TCP timeout cannot be 0"
  | shortTcpBuffer => "TCP initial buffer must hold the length prefix"
  | noSocketPath => "Backend socket path cannot be empty"

namespace ServerConfig

variable (c : ServerConfig)

def addresses : Except ConfigFault (List SocketAddress) :=
  c.listen.mapM fun text =>
    match SocketAddress.ofText? text with
    | some address => .ok address
    | none => .error (.badListenAddress text)

end ServerConfig

namespace Config

variable (c : Config)

/-- The first thing that is wrong, in this order. -/
def validate : Except ConfigFault Unit := do
  if c.server.listen = [] then throw .noListenAddress
  let _ ← c.server.addresses
  if c.frontend.tcpTimeoutSecs = 0 then throw .zeroTcpTimeout
  if c.frontend.tcpInitialBuffer < 2 then throw .shortTcpBuffer
  if Text.trim c.backend.socketPath.toList = [] then throw .noSocketPath

end Config

/-- What the command line may set. -/
structure Overrides where
  listen : List String := []
  socketPath : Option String := none
  blocklistFile : Option String := none
  trustAnchorFile : Option String := none
  logLevel : Option String := none
  deriving DecidableEq, Repr

/-- The command line goes before the file; no addresses at all replace none. -/
def Config.override (c : Config) (o : Overrides) : Config :=
  { c with
    server := { listen := if o.listen = [] then c.server.listen else o.listen }
    backend := { socketPath := o.socketPath.getD c.backend.socketPath }
    blocklist := { c.blocklist with file := o.blocklistFile <|> c.blocklist.file }
    trustAnchor := { file := o.trustAnchorFile <|> c.trustAnchor.file }
    logging := { c.logging with level := o.logLevel.getD c.logging.level } }

end ResolverGate
