import ResolverGate.Blocklist
import ResolverGate.Fault
import ResolverGate.Text.Base64
import ResolverGate.Text.Blank
import ResolverGate.Text.Decimal

/-! # DNSKEY lines

Zone keys in presentation form: owner, TTL and class if any, the type, flags,
protocol, algorithm, and the key in base64. A semicolon starts a comment.
-/

namespace ResolverGate

structure Key where
  owner : String
  ttl : Option UInt32
  flags : UInt16
  protocol : UInt8
  algorithm : UInt8
  publicKey : Bytes
  deriving DecidableEq, Repr

namespace Key

def zoneFlag : UInt16 := 0x0100
def entryPointFlag : UInt16 := 0x0001
def dnssecProtocol : UInt8 := 3

def classes : List String := ["in", "ch", "hs"]

/-- What stands between owner and type: one TTL at most, and classes. Gives the
TTL and the tokens behind the type. -/
def readType (ttl : Option UInt32) : List String → Except AnchorError (Option UInt32 × List String)
  | [] => .error .missingType
  | token :: tokens =>
    let lower := Blocklist.lowerAscii token
    if lower = "dnskey" then .ok (ttl, tokens)
    else if lower ∈ classes then readType ttl tokens
    else
      match Text.decimal? 0x100000000 token.toList, ttl with
      | some n, none => readType (some (UInt32.ofNat n)) tokens
      | _, _ => .error (.notKey token)

/-- A number below `bound` at the front of the tokens. -/
def readField (field : KeyField) (bound : Nat) :
    List String → Except AnchorError (Nat × List String)
  | [] => .error (.badField field)
  | token :: tokens =>
    match Text.decimal? bound token.toList with
    | some n => .ok (n, tokens)
    | none => .error (.badField field)

def ofLine (decode : Base64.Decoder) (line : String) : Except AnchorError Key := do
  let code := line.toList.takeWhile (· ≠ ';')
  match (Text.words code).map String.ofList with
  | [] => .error .emptyLine
  | owner :: tokens =>
    let (ttl, tokens) ← readType none tokens
    let (flags, tokens) ← readField .flags 0x10000 tokens
    let (protocol, tokens) ← readField .protocol 0x100 tokens
    let (algorithm, tokens) ← readField .algorithm 0x100 tokens
    if tokens = [] then .error .missingKey
    else
      let encoded := tokens.flatMap String.toList
      match decode encoded with
      | .error cause => .error (.badKey cause)
      | .ok publicKey =>
        let key : Key :=
          { owner, ttl, publicKey
            flags := UInt16.ofNat flags
            protocol := UInt8.ofNat protocol
            algorithm := UInt8.ofNat algorithm }
        if key.protocol ≠ dnssecProtocol then .error (.wrongProtocol key.protocol)
        else if key.flags &&& zoneFlag = 0 then .error .notZoneKey
        else .ok key

variable (k : Key)

def isEntryPoint : Bool := k.flags &&& entryPointFlag != 0

def rdata : Bytes := Bytes.of16 k.flags ++ k.protocol :: k.algorithm :: k.publicKey

/-- The sum of the big-endian words, the last one filled up with a zero octet; in
32 bits. -/
def wordSum : Bytes → UInt32
  | a :: b :: m => UInt32.ofNat (Bytes.toNumber [a, b]) + wordSum m
  | [a] => UInt32.ofNat (Bytes.toNumber [a, 0])
  | [] => 0

def tag : UInt16 :=
  let sum := wordSum k.rdata
  (sum + (sum >>> 16)).toUInt16

def text : String :=
  k.owner ++ " DNSKEY(alg=" ++ k.algorithm.toNat.repr ++ ", tag=" ++ k.tag.toNat.repr ++ ", "
    ++ (if k.isEntryPoint then "KSK" else "ZSK") ++ ")"

end Key

end ResolverGate
