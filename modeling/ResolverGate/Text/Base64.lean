import ResolverGate.Bytes

/-! # Base64

The standard alphabet with padding. Keys are read by way of any decoder; what is relied on
is stated apart from it. The standard one accepts only the text that encoding gives: full
padding, and no bits set that stand for no octet.
-/

namespace ResolverGate

namespace Base64

def sextet? (c : Char) : Option Nat :=
  if 'A' ≤ c ∧ c ≤ 'Z' then some (c.toNat - 'A'.toNat)
  else if 'a' ≤ c ∧ c ≤ 'z' then some (c.toNat - 'a'.toNat + 26)
  else if '0' ≤ c ∧ c ≤ '9' then some (c.toNat - '0'.toNat + 52)
  else if c = '+' then some 62
  else if c = '/' then some 63
  else none

def symbol (n : Nat) : Char :=
  if n < 26 then Char.ofNat ('A'.toNat + n)
  else if n < 52 then Char.ofNat ('a'.toNat + (n - 26))
  else if n < 62 then Char.ofNat ('0'.toNat + (n - 52))
  else if n = 62 then '+'
  else '/'

def encode : Bytes → List Char
  | [] => []
  | [a] => let n := a.toNat * 16; [symbol (n / 64), symbol (n % 64), '=', '=']
  | [a, b] =>
    let n := (a.toNat * 256 + b.toNat) * 4
    [symbol (n / 4096), symbol (n / 64 % 64), symbol (n % 64), '=']
  | a :: b :: c :: m =>
    let n := (a.toNat * 256 + b.toNat) * 256 + c.toNat
    symbol (n / 262144) :: symbol (n / 4096 % 64) :: symbol (n / 64 % 64) :: symbol (n % 64)
      :: encode m

/-- What takes a text apart into octets. It says in words what it refuses. -/
abbrev Decoder := List Char → Except String Bytes

/-- Encoding is undone, and only the empty text stands for no octets. -/
structure Decoder.Lawful (decode : Decoder) : Prop where
  encode (m : Bytes) : decode (encode m) = .ok m
  nonempty {cs : List Char} : decode cs = .ok [] → cs = []

/-! ## The standard decoder -/

def decode? : List Char → Option Bytes
  | [] => some []
  | [a, b, '=', '='] => do
    let n := (← sextet? a) * 64 + (← sextet? b)
    if n % 16 = 0 then return [UInt8.ofNat (n / 16)] else none
  | [a, b, c, '='] => do
    let n := ((← sextet? a) * 64 + (← sextet? b)) * 64 + (← sextet? c)
    if n % 4 = 0 then return Bytes.ofNumber 2 (n / 4) else none
  | a :: b :: c :: d :: cs => do
    let n := (((← sextet? a) * 64 + (← sextet? b)) * 64 + (← sextet? c)) * 64 + (← sextet? d)
    return Bytes.ofNumber 3 n ++ (← decode? cs)
  | _ => none

inductive Defect
  | strayOctet (octet : UInt8) (offset : Nat)
  | length (count : Nat)
  | padding
  /-- The last symbol has bits set that stand for no octet. -/
  | lastSymbol (octet : UInt8) (offset : Nat)
  deriving DecidableEq, Repr

def Defect.text : Defect → String
  | strayOctet octet offset =>
      "Invalid symbol " ++ octet.toNat.repr ++ ", offset " ++ offset.repr ++ "."
  | length count => "Invalid input length: " ++ count.repr
  | padding => "Invalid padding"
  | lastSymbol octet offset =>
      "Invalid last symbol " ++ octet.toNat.repr ++ ", offset " ++ offset.repr ++ "."

def isSymbol (b : UInt8) : Bool := (sextet? (Char.ofNat b.toNat)).isSome

/-- The equals sign, which fills up the last group. -/
def pad : UInt8 := 61

/-- Why the group of at most four octets that ends a text, from `offset` on, cannot
be decoded. -/
def lastGroupDefect (offset : Nat) (group : Bytes) : Defect :=
  let symbols := group.takeWhile isSymbol
  let stop := offset + symbols.length
  match group.drop symbols.length with
  | [] => if symbols.length < 2 then .length stop else .padding
  | b :: rest =>
    if b ≠ pad ∨ symbols.length < 2 ∨ rest.any (· ≠ pad) then .strayOctet b stop
    else if group.length < 4 then .padding
    else .lastSymbol (symbols.getLastD 0) (stop - 1)

/-- Why `m` is not the encoding of anything. A stray octet alone in the last group
is found first, then those before that group. -/
def defect (m : Bytes) : Defect :=
  let offset := (m.length - 1) / 4 * 4
  let group := m.drop offset
  let early := match group with
    | [b] => !isSymbol b && b ≠ pad
    | _ => false
  let front := m.take offset
  match early, front.dropWhile isSymbol with
  | false, b :: _ => .strayOctet b (front.takeWhile isSymbol).length
  | _, _ => lastGroupDefect offset group

def standard : Decoder := fun cs =>
  match decode? cs with
  | some m => .ok m
  | none => .error (defect (Bytes.ofText (String.ofList cs))).text

end Base64

end ResolverGate
