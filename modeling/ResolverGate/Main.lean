import ResolverGate.Address.Text
import ResolverGate.CommandLine
import ResolverGate.Config.Load

/-! # Checking a configuration

Loads the configuration as the command line asks for, and prints the addresses
to listen on or what is wrong.
-/

namespace ResolverGate

def findPlace (path : String) : IO FilePlace := do
  try
    let content ← IO.FS.readBinFile path
    return .file content.data.toList
  catch
    | .inappropriateType .. => return .directory
    | _ => return .absent

def findPlaces (c : CommandLine) : IO ConfigPlaces := do
  let given ← c.config.mapM fun path => return (path, ← findPlace path)
  return ⟨given, ← findPlace ConfigPlaces.localName, ← findPlace ConfigPlaces.systemName⟩

def checkConfiguration (arguments : List String) : IO UInt32 := do
  match CommandLine.ofArguments arguments with
  | .error e =>
    IO.eprintln ("error: " ++ e.message)
    return 2
  | .ok c =>
    match Config.load (← findPlaces c) c.overrides with
    | .error e =>
      IO.eprintln ("Error: " ++ e.context ++ "\n\nCaused by:\n    " ++ e.message)
      return 1
    | .ok config =>
      for address in config.server.addresses.toOption.getD [] do
        IO.println address.text
      return 0

end ResolverGate

def main (arguments : List String) : IO UInt32 := ResolverGate.checkConfiguration arguments
