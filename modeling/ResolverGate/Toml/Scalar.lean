import ResolverGate.Toml.Value

/-! # TOML numbers, dates and truth values

Scalars without quotes, told apart by their characters. Integers go up to 128
bits, and floats must not overflow a double.
-/

namespace ResolverGate

namespace Toml

def digitsOf (cs : List Char) : Option Nat :=
  cs.foldlM (fun n c => if c.isDigit then some (n * 10 + (c.toNat - '0'.toNat)) else none) 0

/-- The digits without the underscores, each of which must stand between two
digits. -/
def stripUnderscores? (isDigit : Char → Bool) : List Char → Option (List Char)
  | [] => none
  | [c] => if isDigit c then some [c] else none
  | c :: '_' :: cs =>
      if isDigit c then (stripUnderscores? isDigit cs).map (c :: ·) else none
  | c :: cs => if isDigit c then (stripUnderscores? isDigit cs).map (c :: ·) else none

def radixDigit? (radix : Nat) (c : Char) : Option Nat :=
  let value :=
    if c.isDigit then c.toNat - '0'.toNat
    else if 'a' ≤ c ∧ c ≤ 'f' then c.toNat - 'a'.toNat + 10
    else if 'A' ≤ c ∧ c ≤ 'F' then c.toNat - 'A'.toNat + 10
    else radix
  if value < radix then some value else none

def radixNumber? (radix : Nat) (cs : List Char) : Option Nat := do
  let digits ← stripUnderscores? (fun c => (radixDigit? radix c).isSome) cs
  digits.foldlM (fun n c => (radixDigit? radix c).map (n * radix + ·)) 0

/-- Decimal digits without a needless zero in front. -/
def wholeNumber? (cs : List Char) : Option Nat := do
  let digits ← stripUnderscores? Char.isDigit cs
  if digits.head? = some '0' ∧ 1 < digits.length then none
  digitsOf digits

def splitSign : List Char → Bool × List Char
  | '-' :: cs => (true, cs)
  | '+' :: cs => (false, cs)
  | cs => (false, cs)

def integer? (cs : List Char) : Option Int := do
  let n : Int ← match cs with
    | '0' :: 'x' :: digits => (radixNumber? 16 digits).map Int.ofNat
    | '0' :: 'o' :: digits => (radixNumber? 8 digits).map Int.ofNat
    | '0' :: 'b' :: digits => (radixNumber? 2 digits).map Int.ofNat
    | cs =>
      let (negative, digits) := splitSign cs
      (wholeNumber? digits).map fun n => if negative then -(n : Int) else n
  if -0x80000000000000000000000000000000 ≤ n ∧ n < 0x100000000000000000000000000000000 then some n
  else none

/-- The least magnitude that rounds to infinity in a double. -/
def doubleOverflow : Nat := Nat.pow 2 1024 - Nat.pow 2 970

/-- Whether `m · 10 ^ (e - places)` is below that magnitude. A number with no
digit in front of the point is. -/
def fitsDouble (m : Nat) (e : Int) (places : Nat) : Bool :=
  let e := e - places
  if m = 0 then true
  else if 400 < e then false
  else if 0 ≤ e then m * Nat.pow 10 e.toNat < doubleOverflow
  else (Nat.toDigits 10 m).length ≤ -e || m < doubleOverflow * Nat.pow 10 (-e).toNat

def splitAtChar (p : Char → Bool) (cs : List Char) : List Char × Option (List Char) :=
  (cs.takeWhile (!p ·), match cs.dropWhile (!p ·) with | _ :: rest => some rest | [] => none)

/-- Whether the characters are a float: a whole part, and a fraction or an
exponent or both; or infinity, or not a number. -/
def isFloat (cs : List Char) : Bool :=
  let (_, cs) := splitSign cs
  if cs = ['i', 'n', 'f'] || cs = ['n', 'a', 'n'] then true
  else
    let (front, exponent) := splitAtChar (fun c => c = 'e' || c = 'E') cs
    let (whole, fraction) := splitAtChar (· = '.') front
    if exponent.isNone && fraction.isNone then false
    else
      let parts := do
        let wholeValue ← wholeNumber? whole
        let places ← match fraction with
          | some ds => stripUnderscores? Char.isDigit ds
          | none => some []
        let e ← match exponent with
          | some ds =>
            let (negative, ds) := splitSign ds
            let n ← digitsOf (← stripUnderscores? Char.isDigit ds)
            some (if negative then -(n : Int) else n)
          | none => some 0
        let m := places.foldl (fun n (c : Char) => n * 10 + (c.toNat - '0'.toNat)) wholeValue
        return fitsDouble m e places.length
      parts.getD false

def isLeapYear (year : Nat) : Bool :=
  year % 4 = 0 && (year % 100 ≠ 0 || year % 400 = 0)

def daysIn (year month : Nat) : Nat :=
  if month = 2 then (if isLeapYear year then 29 else 28)
  else if month ∈ [4, 6, 9, 11] then 30
  else 31

def fixedDigits? (count : Nat) (cs : List Char) : Option (Nat × List Char) :=
  let ds := cs.take count
  if ds.length = count then (digitsOf ds).map (·, cs.drop count) else none

def expect? (c : Char) : List Char → Option (List Char)
  | d :: cs => if c = d then some cs else none
  | [] => none

def date? (cs : List Char) : Option (List Char) := do
  let (year, cs) ← fixedDigits? 4 cs
  let cs ← expect? '-' cs
  let (month, cs) ← fixedDigits? 2 cs
  let cs ← expect? '-' cs
  let (day, cs) ← fixedDigits? 2 cs
  if 1 ≤ month ∧ month ≤ 12 ∧ 1 ≤ day ∧ day ≤ daysIn year month then some cs else none

/-- Seconds may be left out; their fraction has one digit or more. -/
def time? (cs : List Char) : Option (List Char) := do
  let (hour, cs) ← fixedDigits? 2 cs
  let cs ← expect? ':' cs
  let (minute, cs) ← fixedDigits? 2 cs
  if 23 < hour ∨ 59 < minute then none
  match cs with
  | ':' :: cs =>
    let (second, cs) ← fixedDigits? 2 cs
    if 60 < second then none
    match cs with
    | '.' :: cs =>
      if cs.takeWhile Char.isDigit = [] then none else some (cs.dropWhile Char.isDigit)
    | cs => some cs
  | cs => some cs

def offset? (cs : List Char) : Option (List Char) := do
  match cs with
  | 'Z' :: cs => some cs
  | 'z' :: cs => some cs
  | sign :: cs =>
    if sign ≠ '+' ∧ sign ≠ '-' then none
    let (hour, cs) ← fixedDigits? 2 cs
    let cs ← expect? ':' cs
    let (minute, cs) ← fixedDigits? 2 cs
    if 23 < hour ∨ 59 < minute then none else some cs
  | [] => none

/-- A date, a time, or both with a letter or a space between them and perhaps an
offset. -/
def isDatetime (cs : List Char) : Bool :=
  match date? cs with
  | some [] => true
  | some (c :: cs) =>
    if c = 'T' || c = 't' || c = ' ' then
      match time? cs with
      | some [] => true
      | some cs => offset? cs = some []
      | none => false
    else false
  | none => time? cs = some []

def scalar? (cs : List Char) : Option Value :=
  if cs = ['t', 'r', 'u', 'e'] then some (.boolean true)
  else if cs = ['f', 'a', 'l', 's', 'e'] then some (.boolean false)
  else
    match integer? cs with
    | some n => some (.integer n)
    | none =>
      if isFloat cs then some (.float (String.ofList cs))
      else if isDatetime cs then some (.datetime (String.ofList cs))
      else none

def isScalarChar (c : Char) : Bool :=
  c.isAlphanum || c = '+' || c = '-' || c = '.' || c = '_' || c = ':'

/-- A scalar and the rest of the text. A space may divide a date from a time. -/
def readScalar (cs : List Char) : Option (Value × List Char) :=
  let front := cs.takeWhile isScalarChar
  let rest := cs.dropWhile isScalarChar
  match rest with
  | ' ' :: more =>
    let clock := more.takeWhile isScalarChar
    if date? front = some [] ∧ (clock.head?.map Char.isDigit).getD false then
      (scalar? (front ++ ' ' :: clock)).map (·, more.dropWhile isScalarChar)
    else (scalar? front).map (·, rest)
  | _ => (scalar? front).map (·, rest)

end Toml

end ResolverGate
