import ResolverGate.Config

/-! # Command line

Options, each with a value, which stands behind it or, after an equals sign,
within it.
-/

namespace ResolverGate

inductive Switch
  | config | listen | backendSocket | blocklist | trustAnchorFile | logLevel
  deriving DecidableEq, Repr

namespace Switch

def all : List Switch := [config, listen, backendSocket, blocklist, trustAnchorFile, logLevel]

def longName : Switch → String
  | config => "--config"
  | listen => "--listen"
  | backendSocket => "--backend-socket"
  | blocklist => "--blocklist"
  | trustAnchorFile => "--trust-anchor-file"
  | logLevel => "--log-level"

def shortName? : Switch → Option String
  | config => some "-c"
  | listen => some "-l"
  | backendSocket => some "-s"
  | blocklist => some "-b"
  | trustAnchorFile => some "-t"
  | logLevel => none

/-- The switch that an argument starts with, and the value within the argument. -/
def ofArgument? (argument : String) : Option (Switch × Option String) :=
  all.findSome? fun s =>
    if argument = s.longName || some argument = s.shortName? then some (s, none)
    else if argument.startsWith (s.longName ++ "=") then
      some (s, some (String.ofList (argument.toList.drop (s.longName.length + 1))))
    else none

end Switch

structure CommandLine where
  /-- The file that holds the configuration. -/
  config : Option String := none
  overrides : Overrides := {}
  deriving DecidableEq, Repr

inductive CommandLineError
  | unexpected (argument : String)
  | noValue (switch : Switch)
  | repeated (switch : Switch)
  deriving DecidableEq, Repr

def CommandLineError.message : CommandLineError → String
  | unexpected argument => "unexpected argument '" ++ argument ++ "' found"
  | noValue switch => "a value is required for '" ++ switch.longName ++ "' but none was supplied"
  | repeated switch =>
      "the argument '" ++ switch.longName ++ "' cannot be used multiple times"

namespace CommandLine

/-- Only addresses may be given more than once. -/
def put (c : CommandLine) (value : String) : Switch → Option CommandLine
  | .config => if c.config.isSome then none else some { c with config := some value }
  | .listen =>
    some { c with overrides := { c.overrides with listen := c.overrides.listen ++ [value] } }
  | .backendSocket =>
    if c.overrides.socketPath.isSome then none
    else some { c with overrides := { c.overrides with socketPath := some value } }
  | .blocklist =>
    if c.overrides.blocklistFile.isSome then none
    else some { c with overrides := { c.overrides with blocklistFile := some value } }
  | .trustAnchorFile =>
    if c.overrides.trustAnchorFile.isSome then none
    else some { c with overrides := { c.overrides with trustAnchorFile := some value } }
  | .logLevel =>
    if c.overrides.logLevel.isSome then none
    else some { c with overrides := { c.overrides with logLevel := some value } }

def read : CommandLine → List String → Except CommandLineError CommandLine
  | c, [] => .ok c
  | c, argument :: arguments =>
    match Switch.ofArgument? argument, arguments with
    | none, _ => .error (.unexpected argument)
    | some (switch, some value), arguments =>
      match c.put value switch with
      | some c => read c arguments
      | none => .error (.repeated switch)
    | some (switch, none), [] => .error (.noValue switch)
    | some (switch, none), value :: arguments =>
      match c.put value switch with
      | some c => read c arguments
      | none => .error (.repeated switch)

def ofArguments (arguments : List String) : Except CommandLineError CommandLine :=
  read {} arguments

end CommandLine

end ResolverGate
