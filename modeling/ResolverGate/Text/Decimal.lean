/-! # Decimal numbers

Unsigned numbers as digits behind an optional plus sign.
-/

namespace ResolverGate

namespace Text

def digitValue? (c : Char) : Option Nat :=
  if '0' ≤ c ∧ c ≤ '9' then some (c.toNat - '0'.toNat) else none

/-- One digit or more, as a number below `bound`. -/
def decimal? (bound : Nat) (cs : List Char) : Option Nat :=
  let digits := match cs with
    | '+' :: digits => digits
    | digits => digits
  if digits = [] then none
  else
    match digits.foldlM (fun n c => (digitValue? c).map (n * 10 + ·)) 0 with
    | some n => if n < bound then some n else none
    | none => none

end Text

end ResolverGate
