import ResolverGate.Config.Document
import ResolverGate.FilePlace

/-! # Loading the configuration

The first file that there is counts: the one that was named, the one in the
working directory, the one of the system. Without any the defaults hold.
-/

namespace ResolverGate

inductive ConfigError
  | fileRead (name cause : String)
  | parse
  | validation (fault : ConfigFault)
  deriving DecidableEq, Repr

namespace ConfigError

def message : ConfigError → String
  | fileRead name cause => "Failed to read config file " ++ name ++ ": " ++ cause
  | parse => "Failed to parse config"
  | validation fault => "Configuration validation error: " ++ fault.text

def context : ConfigError → String
  | fileRead .. | parse => "failed to load configuration"
  | validation _ => "invalid configuration"

end ConfigError

structure ConfigPlaces where
  /-- The file that the command line names. -/
  given : Option (String × FilePlace)
  workingDirectory : FilePlace
  system : FilePlace
  deriving DecidableEq, Repr

namespace ConfigPlaces

def localName : String := "ferrous-frontend.toml"
def systemName : String := "/etc/ferrous-frontend/config.toml"

variable (p : ConfigPlaces)

/-- The file that counts, under its name. -/
def chosen : Option (String × FilePlace) :=
  p.given <|> [(localName, p.workingDirectory), (systemName, p.system)].find? (·.2.isPresent)

end ConfigPlaces

namespace Config

def read (name : String) (place : FilePlace) : Except ConfigError Config :=
  match place.readText with
  | .error cause => .error (.fileRead name cause)
  | .ok text =>
    match ConfigDocument.ofText? text with
    | some c => .ok c
    | none => .error .parse

/-- The configuration to run with, which is valid. -/
def load (places : ConfigPlaces) (overrides : Overrides) : Except ConfigError Config := do
  let c ← match places.chosen with
    | some (name, place) => read name place
    | none => pure {}
  let c := c.override overrides
  match c.validate with
  | .ok () => return c
  | .error fault => throw (.validation fault)

end Config

end ResolverGate
