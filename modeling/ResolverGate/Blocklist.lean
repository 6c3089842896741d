import Std.Data.TreeSet

/-! # Blocklists

Sets of names whose queries are refused. Names are kept lower-case and with
their final dot, and found whatever their case and with or without that dot.
-/

namespace ResolverGate

namespace Blocklist

/-- ASCII letters only. -/
def lowerAscii (name : String) : String := String.ofList (name.toList.map Char.toLower)

def isDotted (name : String) : Bool := name.toList.getLast? = some '.'

def normalize (name : String) : String :=
  let name := lowerAscii name
  if isDotted name then name else name.push '.'

/-- Whether a name is kept as it is written. -/
def isNormal (name : String) : Bool :=
  name.toList.all (fun c => !c.isUpper) && isDotted name

end Blocklist

open Blocklist

structure Blocklist where
  names : Std.TreeSet String

namespace Blocklist

def empty : Blocklist := ⟨∅⟩

/-- Also tells whether the name is new. -/
def insert (b : Blocklist) (name : String) : Blocklist × Bool :=
  let name := normalize name
  (⟨b.names.insert name⟩, !b.names.contains name)

def ofNames (names : List String) : Blocklist :=
  names.foldl (fun b name => (b.insert name).1) empty

/-- Names in normal form are looked up as they are. -/
def contains (b : Blocklist) (name : String) : Bool :=
  if isNormal name then b.names.contains name else b.names.contains (normalize name)

def size (b : Blocklist) : Nat := b.names.size

def sameNames (a b : Blocklist) : Bool := a.names.toList == b.names.toList

end Blocklist

end ResolverGate
