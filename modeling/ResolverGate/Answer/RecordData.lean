import ResolverGate.Answer.Packet

/-! # Record data

The data of each record type is a sequence of fields. Fields are read as they
come, up to the end of the message, and must end where the data does: a wrong
length hides every other defect of the fields.
-/

namespace ResolverGate

namespace Answer

/-- A part of record data. Names in some record types are written compressed. -/
inductive Piece
  | octets (data : Bytes)
  | name (labels : Labels) (compressible : Bool)
  deriving DecidableEq, Repr

/-- Where the data of a record stands in its packet. -/
structure Extent where
  start : Nat
  length : Nat
  deriving DecidableEq, Repr

namespace Extent

variable (e : Extent)

def consumed : Scan Nat := do
  return (← get) - e.start

def left : Scan Nat := do
  let consumed ← e.consumed
  if e.length < consumed then throw (.dataLength consumed e.length)
  return e.length - consumed

def rest : Scan Bytes := do
  Scan.octets (← e.left)

end Extent

def isAlphanum (b : UInt8) : Bool := (Char.ofNat b.toNat).isAlphanum

/-! ## Text records -/

/-- Counted strings until the data is used up; at most `most`. -/
def strings (e : Extent) : (most : Nat) → Scan Bytes
  | 0 => return []
  | most + 1 => do
    if e.length ≤ (← e.consumed) then return []
    let s ← Scan.counted .truncated
    return s ++ (← strings e most)

/-- The flags of a naming pointer are letters and digits. -/
def pointerFlags : Scan Bytes := do
  let flags ← Scan.counted .truncated
  if (flags.drop 1).all isAlphanum then return flags else throw .pointerFlags

def tagCharacter : Scan UInt8 := do
  let b ← Scan.octet
  if isAlphanum b then return b else throw .tagCharacter

/-- Property tags have 1 to 15 letters and digits. -/
def maxTag : Nat := 15

def property (e : Extent) : Scan Bytes := do
  let flags ← Scan.octet
  let len ← Scan.octet
  if len = 0 ∨ maxTag < len.toNat ∨ e.length < 2 + len.toNat then throw .tagLength
  let tag ← (List.replicate len.toNat tagCharacter).mapM id
  return flags :: len :: tag ++ (← e.rest)

/-! ## Keys, hashes and signatures -/

def keyProtocol : Scan Bytes := do
  let b ← Scan.octet
  if b = 3 then return [b] else throw (.keyProtocol b)

/-- Key flags without reserved or extended ones. -/
def keyFlags : Scan Bytes := do
  let flags ← Scan.word
  if flags &&& 0x2CF0 ≠ 0 then throw .reservedKeyFlags
  if flags &&& 0x1000 ≠ 0 then throw .extendedKeyFlags
  return Bytes.of16 flags

def hashAlgorithm : Scan Bytes := do
  let b ← Scan.octet
  if b = 1 then return [b] else throw (.hashAlgorithm b)

def hashFlags : Scan Bytes := do
  let b ← Scan.octet
  if b ≤ 1 then return [b] else throw (.hashFlags b)

def certificateFront : Nat := 5

/-- Kinds and algorithms at the end of their ranges are reserved as 0 is, and
become 0. -/
def certificate (e : Extent) : Scan Bytes := do
  if e.length ≤ certificateFront then throw .shortCertificate
  let kind ← Scan.word
  let tag ← Scan.octets 2
  let algorithm ← Scan.octet
  let kind := if kind = 255 ∨ kind = 65535 then 0 else kind
  let algorithm := if algorithm = 255 then 0 else algorithm
  return Bytes.of16 kind ++ tag ++ algorithm :: (← e.rest)

def longCounted (e : Extent) (d : Defect) (fit : Nat → Bool) : Scan Bytes := do
  let len ← Scan.word
  let consumed ← e.consumed
  if fit (consumed + len.toNat) then return Bytes.of16 len ++ (← Scan.octets len.toNat)
  else throw d

def digest (e : Extent) : Scan Bytes :=
  longCounted e .signatureDigest fun ending => ending + 6 ≤ e.length

def signatureRest (e : Extent) : Scan Bytes :=
  longCounted e .signatureRest fun ending => ending = e.length

/-! ## Bitmaps of record types -/

inductive BitmapState
  | window
  | length
  | block (length index : Nat)

/-- Takes one octet of a bitmap. A block of no octets cannot be followed, and the
bits of its octets have numbers below 256. -/
def BitmapState.step : BitmapState → UInt8 → Option BitmapState
  | window, _ => some length
  | length, n => some (block n.toNat 0)
  | block n i, bits =>
    if n = 0 then none
    else if bits ≠ 0 ∧ 32 ≤ i then none
    else if i + 1 = n then some window
    else some (block n (i + 1))

/-- Bitmaps may end anywhere. -/
def bitmapFits (m : Bytes) : Bool :=
  (m.foldlM BitmapState.step .window).isSome

def bitmap (e : Extent) : Scan Bytes := do
  let m ← e.rest
  if bitmapFits m then return m else throw .bitmap

def syncFlags : Scan Bytes := do
  let flags ← Scan.word
  if flags &&& 0x00FC = 0 then return Bytes.of16 flags else throw (.syncFlags flags)

/-! ## Service parameters -/

/-- Whether counted strings of UTF-8 fill the value exactly. -/
def protocolNames (m : Bytes) : Except Defect Unit :=
  match m with
  | [] => .ok ()
  | len :: rest =>
    if Bytes.hasAtLeast len.toNat rest then
      if (Bytes.toText? (rest.take len.toNat)).isSome then protocolNames (rest.drop len.toNat)
      else .error .parameterText
    else .error .truncated
termination_by m.length
decreasing_by
  simp only [List.length_drop, List.length_cons]
  omega

/-- What is kept of a parameter's value. Keys 0 to 6 have a form: the mandatory
keys, protocol names, nothing, a port, IPv4 addresses, anything, and IPv6
addresses. -/
def parameterValue (key : Nat) (m : Bytes) : Except Defect Bytes :=
  let whole (size : Nat) := if m.length % size = 0 then .ok m else .error .truncated
  match key with
  | 0 => if m = [] then .error .emptyParameter else whole 2
  | 1 => if m = [] then .error .emptyParameter else (protocolNames m).map fun _ => m
  | 2 => if m = [] then .ok m else .error .emptyParameter
  | 3 => if m.length < 2 then .error .truncated else .ok (m.take 2)
  | 4 => whole 4
  | 6 => whole 16
  | _ => .ok m

def parameterFront : Nat := 4

/-- Parameters in ascending order of their keys, as long as the data has room for
one; `last` is the key of the one before. -/
def parameters (e : Extent) (last : Option Nat) : (most : Nat) → Scan Bytes
  | 0 => return []
  | most + 1 => do
    if (← e.left) < parameterFront then return []
    let key ← Scan.number 2
    let len ← Scan.number 2
    let left ← Scan.left
    if left < len then throw (.longParameter len left)
    let value ← Scan.ofExcept (parameterValue key (← Scan.octets len))
    if last.any (key ≤ ·) then throw .parameterOrder
    let front := Bytes.ofNumber 2 key ++ Bytes.ofNumber 2 value.length
    return front ++ value ++ (← parameters e (some key) most)

/-! ## EDNS options -/

/-- A client's subnet: the family, how much of the address is given, and so much
of the address. -/
def subnet (m : Bytes) : Except Defect Unit :=
  match Bytes.read16? m with
  | none => .error .truncated
  | some (family, m) =>
    let address (longest : Nat) : Except Defect Unit :=
      match m with
      | source :: _scope :: m =>
        let size := (source.toNat + 7) / 8
        if longest < size then .error .longAddress
        else if Bytes.hasAtLeast size m then .ok ()
        else .error .truncated
      | _ => .error .truncated
    match family.toNat with
    | 1 => address 4
    | 2 => address 16
    | _ => .error (.addressFamily family)

def option (code : Nat) (m : Bytes) : Except Defect Unit :=
  if code = 8 then subnet m else .ok ()

/-- EDNS options until the data is used up, at most `most`. The last one may lack
its length or some of its data. -/
def options (e : Extent) : (most : Nat) → Scan Bytes
  | 0 => return []
  | most + 1 => do
    if e.length ≤ (← e.consumed) then return []
    let code ← Scan.number 2
    if e.length ≤ (← e.consumed) then return []
    let len ← Scan.number 2
    if e.length < len then throw .longOption
    let consumed ← e.consumed
    let data ← Scan.octets (min len (e.length - consumed))
    if data.length < len then return []
    Scan.ofExcept (option code data)
    return Bytes.ofNumber 2 code ++ Bytes.ofNumber 2 len ++ data ++ (← options e most)

/-! ## The fields of each type -/

namespace Fields

def plain (field : Scan Bytes) : Scan Piece := Piece.octets <$> field

def numbers (sizes : List Nat) : List (Scan Piece) := sizes.map fun n => plain (Scan.octets n)

def name (compressible : Bool) : Scan Piece := return .name (← Scan.name) compressible

def string : Scan Piece := plain (Scan.counted .truncated)

def ofType (t : RecordType) (e : Extent) : List (Scan Piece) :=
  let rest := plain e.rest
  match t.code.toNat with
  | 0 => []
  | 1 => numbers [1, 1, 1, 1]
  | 28 => numbers (List.replicate 8 2)
  | 2 | 5 | 12 => [name true]
  | 6 => [name true, name true] ++ numbers [4, 4, 4, 4, 4]
  | 13 => [string, string]
  | 15 => numbers [2] ++ [name true]
  | 16 => [plain (strings e e.length)]
  | 24 | 46 => numbers [2, 1, 1, 4, 4, 4, 2] ++ [name false, rest]
  | 25 => plain keyFlags :: numbers [1, 1] ++ [rest]
  | 33 => numbers [2, 2, 2] ++ [name false]
  | 35 => numbers [2, 2] ++ [plain pointerFlags, string, string, name false]
  | 37 => [plain (certificate e)]
  | 41 => [plain (options e e.length)]
  | 43 | 59 => numbers [2, 1, 1] ++ [rest]
  | 44 => numbers [1, 1] ++ [rest]
  | 47 => [name false, plain (bitmap e)]
  | 48 | 60 => numbers [2] ++ plain keyProtocol :: numbers [1] ++ [rest]
  | 50 =>
    plain hashAlgorithm :: plain hashFlags :: numbers [2]
      ++ [plain (Scan.counted .longSalt), plain (Scan.counted .longHash), plain (bitmap e)]
  | 51 =>
    plain hashAlgorithm :: plain hashFlags :: numbers [2] ++ [plain (Scan.counted .longSalt)]
  | 52 | 53 => numbers [1, 1, 1] ++ [rest]
  | 62 => numbers [4] ++ [plain syncFlags, plain (bitmap e)]
  | 64 | 65 => numbers [2] ++ [name false, plain (parameters e none e.length)]
  | 250 =>
    name false :: numbers [2, 4, 2] ++ plain (digest e) :: numbers [2, 2]
      ++ [plain (signatureRest e)]
  | 257 => [plain (property e)]
  | 65305 => [name false]
  | _ => [rest]

end Fields

/-- The data of a record of type `t`, `length` octets from here on. -/
def recordData (t : RecordType) (length : Nat) : Scan (List Piece) := do
  if t.isZoneTransfer ∨ t = .any then throw (.questionType t)
  let e : Extent := ⟨← get, length⟩
  let pieces ← Scan.outcome ((Fields.ofType t e).mapM id)
  let consumed ← e.consumed
  if consumed ≠ length then throw (.dataLength consumed length)
  Scan.ofExcept pieces

end Answer

end ResolverGate
