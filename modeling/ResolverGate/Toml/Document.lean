import ResolverGate.Toml.Quoted
import ResolverGate.Toml.Scalar

/-! # TOML documents

Values with their arrays and inline tables, and the lines of a document put
together to one table. A text that breaks a rule anywhere has no value.
-/

namespace ResolverGate

namespace Toml

/-- Passes over gaps, line ends and comments; fails on a stray control character. -/
def skipTrivia (inComment : Bool) : List Char → Option (List Char)
  | [] => some []
  | '\r' :: '\n' :: cs => skipTrivia false cs
  | c :: cs =>
    if c = '\n' then skipTrivia false cs
    else if inComment then if isControl c then none else skipTrivia true cs
    else if isGap c then skipTrivia false cs
    else if c = '#' then skipTrivia true cs
    else some (c :: cs)

/-- Arrays and inline tables nest no deeper. -/
def maxDepth : Nat := 80

mutual

/-- A value and the rest of the text. `fuel` bounds the steps, `depth` is how much
deeper values may nest. -/
def readValue : (fuel depth : Nat) → Reader Value
  | 0, _, _ => none
  | fuel + 1, depth, cs =>
    match cs with
    | '[' :: cs => if depth = 0 then none else readItems fuel (depth - 1) [] cs
    | '{' :: cs =>
      if depth = 0 then none else readEntries fuel (depth - 1) (.table .inline []) cs
    | c :: _ =>
      if c = '"' || c = tick then (anyString cs).map fun (s, cs) => (.string s, cs)
      else readScalar cs
    | [] => none

def readItems : (fuel depth : Nat) → List Value → Reader Value
  | 0, _, _, _ => none
  | fuel + 1, depth, items, cs =>
    match skipTrivia false cs with
    | none => none
    | some (']' :: cs) => some (.array false items.reverse, cs)
    | some cs =>
      match readValue fuel depth cs with
      | none => none
      | some (item, cs) =>
        match skipTrivia false cs with
        | some (',' :: cs) => readItems fuel depth (item :: items) cs
        | some (']' :: cs) => some (.array false (item :: items).reverse, cs)
        | _ => none

def readEntries : (fuel depth : Nat) → Value → Reader Value
  | 0, _, _, _ => none
  | fuel + 1, depth, table, cs =>
    match skipTrivia false cs with
    | none => none
    | some ('}' :: cs) => some (table, cs)
    | some cs =>
      match keyPath cs with
      | some (path, '=' :: cs) =>
        match readValue fuel depth (skipGaps cs) with
        | none => none
        | some (v, cs) =>
          match table.addPath? path v, skipTrivia false cs with
          | some table, some (',' :: cs) => readEntries fuel depth table cs
          | some table, some ('}' :: cs) => some (table, cs)
          | _, _ => none
      | _ => none

end

/-- What follows a line's content: perhaps a comment, then its end. -/
def endLine? (cs : List Char) : Option (List Char) :=
  let rest := match skipGaps cs with
    | '#' :: cs => cs.dropWhile (!isControl ·)
    | cs => cs
  match rest with
  | [] => some []
  | '\n' :: cs => some cs
  | '\r' :: '\n' :: cs => some cs
  | _ => none

/-- One line with content: a header, which the next lines stand under, or a key
and its value. -/
def readLine? (header : List String) (root : Value) (cs : List Char) :
    Option (List String × Value × List Char) := do
  match cs with
  | '[' :: '[' :: cs =>
    let (path, cs) ← keyPath cs
    match cs with
    | ']' :: ']' :: cs => return (path, ← root.appendTable? path, ← endLine? cs)
    | _ => none
  | '[' :: cs =>
    let (path, cs) ← keyPath cs
    match cs with
    | ']' :: cs => return (path, ← root.openTable? path, ← endLine? cs)
    | _ => none
  | cs =>
    let (path, cs) ← keyPath cs
    match cs with
    | '=' :: cs =>
      let (v, cs) ← readValue (2 * cs.length + 2) maxDepth (skipGaps cs)
      return (header, ← root.addLine? header path v, ← endLine? cs)
    | _ => none

/-- The lines of a document, at most `most` with content. -/
def readLines? : (most : Nat) → List String → Value → List Char → Option Value
  | 0, _, root, cs => if cs = [] then some root else none
  | most + 1, header, root, cs => do
    match ← skipTrivia false cs with
    | [] => return root
    | cs =>
      let (header, root, cs) ← readLine? header root cs
      readLines? most header root cs

/-- The table that a document describes; a byte order mark is passed over. -/
def parse? (s : String) : Option Entries :=
  let cs := match s.toList with
    | c :: cs => if c.toNat = 0xFEFF then cs else c :: cs
    | [] => []
  (readLines? (cs.length + 1) [] (.table .named []) cs).map (·.entries)

end Toml

end ResolverGate
