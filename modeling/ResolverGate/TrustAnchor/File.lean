import ResolverGate.FilePlace
import ResolverGate.TrustAnchor.Key
import ResolverGate.TrustAnchor.Manager

/-! # Anchor files

Trust anchors kept in a file, one line each. Lines that are no keys are passed
over, comments and blank lines silently.
-/

namespace ResolverGate

namespace AnchorFile

variable (decode : Base64.Decoder)

def isComment (line : List Char) : Bool :=
  line = [] || line.head? = some ';' || line.head? = some '#'

/-- Lines that are kept as they stand, and those that are no keys. -/
def readLines : List (List Char) → List String × List Notice
  | [] => ([], [])
  | line :: lines =>
    let (anchors, notices) := readLines lines
    if isComment line then (anchors, notices)
    else
      match Key.ofLine decode (String.ofList line) with
      | .ok _ => (String.ofList line :: anchors, notices)
      | .error e => (anchors, .anchorLineIgnored e :: notices)

/-- A file that is not there holds no anchors. -/
def load (name : String) (place : FilePlace) : Except Fault (List String) × List Notice :=
  match place with
  | .absent | .unreachable => (.ok [], [])
  | place =>
    match place.readText with
    | .error cause => (.error (FilePlace.fault name cause), [])
    | .ok s =>
      let (anchors, notices) := readLines decode ((Text.trimmedLines s).map (·.2))
      (.ok anchors, notices)

def save (name : String) (anchors : TrustAnchors) (place : FilePlace) :
    Except Fault Unit × FilePlace :=
  match place.write (Bytes.ofText anchors.fileText) with
  | (.ok (), place) => (.ok (), place)
  | (.error cause, place) => (.error (FilePlace.fault name cause), place)

def store (name : String) : AnchorStore FilePlace := ⟨load decode name, save name⟩

end AnchorFile

end ResolverGate
