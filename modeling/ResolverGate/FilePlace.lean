import ResolverGate.Fault

/-! # Places of files

What is found under a path, as far as reading and writing a file can tell.
-/

namespace ResolverGate

/-- What a path leads to. -/
inductive FilePlace
  | file (content : Bytes)
  | absent
  | directory
  /-- The directory that should hold the file is missing. -/
  | unreachable
  deriving DecidableEq, Repr

namespace FilePlace

def isPresent : FilePlace → Bool
  | file _ | directory => true
  | absent | unreachable => false

def notFound : String := "No such file or directory (os error 2)"
def isDirectory : String := "Is a directory (os error 21)"
def notText : String := "stream did not contain valid UTF-8"

def readText : FilePlace → Except String String
  | file content =>
    match content.toText? with
    | some s => .ok s
    | none => .error notText
  | absent | unreachable => .error notFound
  | directory => .error isDirectory

def write (content : Bytes) : FilePlace → Except String Unit × FilePlace
  | directory => (.error isDirectory, directory)
  | unreachable => (.error notFound, unreachable)
  | _ => (.ok (), file content)

/-- The fault of a file operation that failed under this name. -/
def fault (name cause : String) : Fault := .io (name ++ ": " ++ cause)

end FilePlace

end ResolverGate
