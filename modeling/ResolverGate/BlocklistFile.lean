import ResolverGate.Blocklist
import ResolverGate.FilePlace
import ResolverGate.Notice
import ResolverGate.Text.Blank

/-! # Blocklist files

One domain a line. Blank lines and lines that start with `#` are passed over, and
so are lines of several words, which are reported.
-/

namespace ResolverGate

namespace BlocklistFile

def addLine (state : Blocklist × List Notice) (line : Nat × List Char) :
    Blocklist × List Notice :=
  let (b, notices) := state
  let (number, entry) := line
  if entry = [] || entry.head? = some '#' then (b, notices)
  else if entry.any Text.isBlank then
    (b, .blocklistEntryIgnored number (String.ofList entry) :: notices)
  else ((b.insert (String.ofList entry)).1, notices)

def ofText (s : String) : Blocklist × List Notice :=
  let (b, notices) := (Text.trimmedLines s).foldl addLine (.empty, [])
  (b, notices.reverse)

def load (name : String) (place : FilePlace) : Except Fault Blocklist × List Notice :=
  match place.readText with
  | .error cause => (.error (FilePlace.fault name cause), [])
  | .ok s => let (b, notices) := ofText s; (.ok b, notices)

end BlocklistFile

end ResolverGate
