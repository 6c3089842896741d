/-! # TOML values

Tables remember how they came to be, which decides whether later lines may add
to them.
-/

namespace ResolverGate

namespace Toml

inductive TableKind
  /-- Named by a header. -/
  | named
  /-- Passed through on the way to a header's table. -/
  | implied
  /-- Made by a dotted key. -/
  | dotted
  /-- Written in braces, and closed. -/
  | inline
  deriving DecidableEq, Repr

inductive Value
  | string (s : String)
  | integer (n : Int)
  | float (literal : String)
  | boolean (b : Bool)
  | datetime (literal : String)
  /-- `ofTables` if headers in double brackets made it. -/
  | array (ofTables : Bool) (items : List Value)
  | table (kind : TableKind) (entries : List (String × Value))
  deriving Repr

abbrev Entries := List (String × Value)

namespace Entries

def find? (es : Entries) (key : String) : Option Value := es.lookup key

def set (es : Entries) (key : String) (v : Value) : Entries :=
  if (es.find? key).isSome then es.map fun e => if e.1 = key then (key, v) else e
  else es ++ [(key, v)]

end Entries

namespace Value

def entries : Value → Entries
  | table _ es => es
  | _ => []

def kind : Value → TableKind
  | table kind _ => kind
  | _ => .inline

/-- Changes the table that a path leads to from the table `v`, making tables on
the way. A header's path may pass through any table that is not closed, a dotted
key only through such that no header names; both enter the last table of an
array of them. -/
def modify? (byKey : Bool) (change : Value → Option Value) :
    List String → Value → Option Value
  | [], v => change v
  | key :: path, v =>
    match Entries.find? v.entries key with
    | none => do
      let kind := if byKey then .dotted else .implied
      let inner ← modify? byKey change path (.table kind [])
      return .table v.kind (Entries.set v.entries key inner)
    | some (.table kind es) =>
      if kind = .inline || (byKey && kind = .named) then none
      else do
        let inner ← modify? byKey change path (.table kind es)
        return .table v.kind (Entries.set v.entries key inner)
    | some (.array true items) =>
      match items.getLast? with
      | none => none
      | some last => do
        let inner ← modify? byKey change path last
        return .table v.kind (Entries.set v.entries key (.array true (items.dropLast ++ [inner])))
    | some _ => none

/-- Adds a key that is not there yet. A dotted key adds only to tables that
dotted keys made. -/
def addKey? (v : Value) (isDotted : Bool) (key : String) (new : Value) : Option Value :=
  if isDotted ≠ (v.kind = .dotted) || (Entries.find? v.entries key).isSome then none
  else some (.table v.kind (Entries.set v.entries key new))

def addPath? (v : Value) (path : List String) (new : Value) : Option Value :=
  match path.getLast? with
  | none => none
  | some key =>
    let front := path.dropLast
    modify? true (·.addKey? (front ≠ []) key new) front v

/-- A header names a table that is new or was only implied so far. -/
def openTable? (v : Value) (path : List String) : Option Value :=
  match path.getLast? with
  | none => none
  | some key =>
    modify? false (fun parent =>
      match Entries.find? parent.entries key with
      | none => some (.table parent.kind (Entries.set parent.entries key (.table .named [])))
      | some (.table .implied es) =>
        some (.table parent.kind (Entries.set parent.entries key (.table .named es)))
      | some _ => none) path.dropLast v

/-- A header in double brackets appends a table to an array of tables. -/
def appendTable? (v : Value) (path : List String) : Option Value :=
  match path.getLast? with
  | none => none
  | some key =>
    modify? false (fun parent =>
      let put (items : List Value) : Value :=
        .table parent.kind
          (Entries.set parent.entries key (.array true (items ++ [.table .named []])))
      match Entries.find? parent.entries key with
      | none => some (put [])
      | some (.array true items) => some (put items)
      | some _ => none) path.dropLast v

/-- Adds a line's key under the header that stands above it. -/
def addLine? (v : Value) (header path : List String) (new : Value) : Option Value :=
  modify? false (·.addPath? path new) header v

end Value

end Toml

end ResolverGate
