/-! # TOML strings and keys

Basic strings have escapes, literal strings have none; both come in one line or
over several. Readers give what they read and the rest of the text.
-/

namespace ResolverGate

namespace Toml

abbrev Reader (α : Type) := List Char → Option (α × List Char)

def isGap (c : Char) : Bool := c = ' ' || c = '\t'

def skipGaps (cs : List Char) : List Char := cs.dropWhile isGap

def isControl (c : Char) : Bool := (c.toNat < 0x20 && c ≠ '\t') || c.toNat = 0x7F

def hexValue? (c : Char) : Option Nat :=
  if '0' ≤ c ∧ c ≤ '9' then some (c.toNat - '0'.toNat)
  else if 'a' ≤ c ∧ c ≤ 'f' then some (c.toNat - 'a'.toNat + 10)
  else if 'A' ≤ c ∧ c ≤ 'F' then some (c.toNat - 'A'.toNat + 10)
  else none

/-- The character with this hexadecimal number. -/
def charOfHex? (digits : List Char) : Option Char :=
  match digits.foldlM (fun n c => (hexValue? c).map (n * 16 + ·)) 0 with
  | some n => if n.isValidChar then some (Char.ofNat n) else none
  | none => none

/-- What an escape of one letter stands for. -/
def escaped? (c : Char) : Option Char :=
  match c with
  | 'b' => some (Char.ofNat 8)
  | 't' => some '\t'
  | 'n' => some '\n'
  | 'f' => some (Char.ofNat 12)
  | 'r' => some '\r'
  | 'e' => some (Char.ofNat 27)
  | '"' => some '"'
  | '\\' => some '\\'
  | _ => none

def push (c : Char) (r : Option (List Char × List Char)) : Option (List Char × List Char) :=
  r.map fun (cs, rest) => (c :: cs, rest)

def push? (c : Option Char) (r : Option (List Char × List Char)) :
    Option (List Char × List Char) :=
  c.bind (push · r)

/-- Behind the opening quote, up to and over the closing one. -/
def basicBody : Reader (List Char)
  | [] => none
  | '"' :: cs => some ([], cs)
  | '\\' :: 'x' :: a :: b :: cs => push? (charOfHex? [a, b]) (basicBody cs)
  | '\\' :: 'u' :: a :: b :: c :: d :: cs => push? (charOfHex? [a, b, c, d]) (basicBody cs)
  | '\\' :: 'U' :: a :: b :: c :: d :: e :: f :: g :: h :: cs =>
      push? (charOfHex? [a, b, c, d, e, f, g, h]) (basicBody cs)
  | '\\' :: c :: cs => push? (escaped? c) (basicBody cs)
  | c :: cs => if isControl c then none else push c (basicBody cs)

/-- The apostrophe, which delimits literal strings. -/
def tick : Char := Char.ofNat 39

def literalBody : Reader (List Char)
  | [] => none
  | c :: cs =>
    if c = tick then some ([], cs)
    else if isControl c then none
    else push c (literalBody cs)

/-- Whether the text starts with a line end, behind gaps. -/
def endsLine (cs : List Char) : Bool :=
  match skipGaps cs with
  | '\n' :: _ => true
  | '\r' :: '\n' :: _ => true
  | _ => false

/-- Over several lines, up to three quotes in a row; up to two more belong to the
text. While `trimming`, gaps and line ends are passed over, as a backslash at a
line's end asks for. -/
def longBasicBody (trimming : Bool) : Reader (List Char)
  | [] => none
  | '"' :: '"' :: '"' :: '"' :: '"' :: cs => some (['"', '"'], cs)
  | '"' :: '"' :: '"' :: '"' :: cs => some (['"'], cs)
  | '"' :: '"' :: '"' :: cs => some ([], cs)
  | '\r' :: '\n' :: cs =>
      if trimming then longBasicBody true cs
      else push '\r' (push '\n' (longBasicBody false cs))
  | '\\' :: 'x' :: a :: b :: cs => push? (charOfHex? [a, b]) (longBasicBody false cs)
  | '\\' :: 'u' :: a :: b :: c :: d :: cs =>
      push? (charOfHex? [a, b, c, d]) (longBasicBody false cs)
  | '\\' :: 'U' :: a :: b :: c :: d :: e :: f :: g :: h :: cs =>
      push? (charOfHex? [a, b, c, d, e, f, g, h]) (longBasicBody false cs)
  | '\\' :: c :: cs =>
      if endsLine (c :: cs) then longBasicBody true (c :: cs)
      else push? (escaped? c) (longBasicBody false cs)
  | c :: cs =>
      if trimming && (isGap c || c = '\n') then longBasicBody true cs
      else if isControl c && c ≠ '\n' then none
      else push c (longBasicBody false cs)
termination_by cs => cs.length

def longLiteralBody : Reader (List Char)
  | [] => none
  | '\r' :: '\n' :: cs => push '\r' (push '\n' (longLiteralBody cs))
  | c :: cs =>
    if c = tick && cs.take 2 = [tick, tick] then
      match cs.drop 2 with
      | d :: e :: rest =>
        if d = tick && e = tick then some ([tick, tick], rest)
        else if d = tick then some ([tick], e :: rest)
        else some ([], d :: e :: rest)
      | [d] => if d = tick then some ([tick], []) else some ([], [d])
      | [] => some ([], [])
    else if isControl c && c ≠ '\n' then none
    else push c (longLiteralBody cs)

/-- A line end right behind the opening quotes is not part of the text. -/
def dropLineEnd : List Char → List Char
  | '\n' :: cs => cs
  | '\r' :: '\n' :: cs => cs
  | cs => cs

def asText (r : Option (List Char × List Char)) : Option (String × List Char) :=
  r.map fun (cs, rest) => (String.ofList cs, rest)

def lineString : Reader String
  | '"' :: cs => asText (basicBody cs)
  | c :: cs => if c = tick then asText (literalBody cs) else none
  | [] => none

def anyString (cs : List Char) : Option (String × List Char) :=
  let rest := dropLineEnd (cs.drop 3)
  if cs.take 3 = ['"', '"', '"'] then asText (longBasicBody false rest)
  else if cs.take 3 = [tick, tick, tick] then asText (longLiteralBody rest)
  else lineString cs

def isBare (c : Char) : Bool := c.isAlphanum || c = '_' || c = '-'

def simpleKey (cs : List Char) : Option (String × List Char) :=
  match cs.takeWhile isBare with
  | [] => lineString cs
  | key => some (String.ofList key, cs.dropWhile isBare)

/-- Keys with more parts than this are refused. -/
def maxKeyParts : Nat := 80

/-- The parts of a key with dots between them, at most `most`. -/
def keyParts : (most : Nat) → Reader (List String)
  | 0, _ => none
  | most + 1, cs => do
    let (key, cs) ← simpleKey (skipGaps cs)
    match skipGaps cs with
    | '.' :: cs =>
      let (keys, cs) ← keyParts most cs
      return (key :: keys, cs)
    | cs => return ([key], cs)

def keyPath : Reader (List String) := keyParts maxKeyParts

end Toml

end ResolverGate
