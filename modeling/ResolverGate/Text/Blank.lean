/-! # Blank characters

The characters that Unicode counts as white space, and cutting text at them and
at line ends.
-/

namespace ResolverGate

namespace Text

def blankRanges : List (Nat × Nat) :=
  [(0x09, 0x0D), (0x20, 0x20), (0x85, 0x85), (0xA0, 0xA0), (0x1680, 0x1680), (0x2000, 0x200A),
    (0x2028, 0x2029), (0x202F, 0x202F), (0x205F, 0x205F), (0x3000, 0x3000)]

def isBlank (c : Char) : Bool :=
  blankRanges.any fun (first, last) => first ≤ c.toNat && c.toNat ≤ last

/-- Without the blanks at both ends. -/
def trim (cs : List Char) : List Char :=
  ((cs.dropWhile isBlank).reverse.dropWhile isBlank).reverse

def splitOn (separator : Char → Bool) (cs : List Char) : List (List Char) :=
  cs.foldr step [[]]
where
  step (c : Char) (pieces : List (List Char)) : List (List Char) :=
    if separator c then [] :: pieces
    else
      match pieces with
      | piece :: pieces => (c :: piece) :: pieces
      | [] => [[c]]

/-- The pieces between runs of blanks. -/
def words (cs : List Char) : List (List Char) :=
  (splitOn isBlank cs).filter (· ≠ [])

/-- The trimmed lines, numbered from 1. -/
def trimmedLines (s : String) : List (Nat × List Char) :=
  ((splitOn (· = '\n') s.toList).map trim).zipIdx 1 |>.map fun (line, n) => (n, line)

end Text

end ResolverGate
