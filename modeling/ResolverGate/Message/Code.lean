/-! # Message codes

The numbers that a message carries for record types, record classes and
response codes, with their mnemonics.
-/

namespace ResolverGate

structure RecordType where
  code : UInt16
  deriving DecidableEq, Repr

namespace RecordType

def txt : RecordType := ⟨16⟩
def sig : RecordType := ⟨24⟩
def opt : RecordType := ⟨41⟩
def tsig : RecordType := ⟨250⟩
def any : RecordType := ⟨255⟩

def mnemonic? (t : RecordType) : Option String :=
  match t.code.toNat with
  | 1 => some "A"
  | 2 => some "NS"
  | 5 => some "CNAME"
  | 6 => some "SOA"
  | 12 => some "PTR"
  | 15 => some "MX"
  | 16 => some "TXT"
  | 28 => some "AAAA"
  | 33 => some "SRV"
  | 41 => some "OPT"
  | 43 => some "DS"
  | 46 => some "RRSIG"
  | 47 => some "NSEC"
  | 48 => some "DNSKEY"
  | 50 => some "NSEC3"
  | 65 => some "HTTPS"
  | 249 => some "TKEY"
  | 250 => some "TSIG"
  | 251 => some "IXFR"
  | 252 => some "AXFR"
  | 253 => some "MAILB"
  | 254 => some "MAILA"
  | 255 => some "ANY"
  | _ => none

/-- The mnemonic, or the number behind `TYPE` for a type without one. -/
def text (t : RecordType) : String :=
  t.mnemonic?.getD ("TYPE" ++ t.code.toNat.repr)

def isZoneTransfer (t : RecordType) : Bool :=
  t.code == 251 || t.code == 252

/-- Types that never stand in a client's question; ANY is a fair question. -/
def isMeta (t : RecordType) : Bool :=
  t.code == 41 || t.code == 249 || t.code == 250 || t.code == 253 || t.code == 254
    || (128 ≤ t.code && t.code ≤ 248)

/-- Types that only clients aware of signatures are sent unasked. -/
def isDnssec (t : RecordType) : Bool :=
  t.code == 46 || t.code == 47 || t.code == 50

end RecordType

structure RecordClass where
  code : UInt16
  deriving DecidableEq, Repr

namespace RecordClass

def chaos : RecordClass := ⟨3⟩

def text (c : RecordClass) : String :=
  match c.code.toNat with
  | 1 => "IN"
  | 3 => "CH"
  | 4 => "HS"
  | 254 => "NONE"
  | 255 => "ANY"
  | other => "CLASS" ++ other.repr

end RecordClass

inductive Rcode
  | noError | formErr | servFail | nxDomain | notImp | refused
  deriving DecidableEq, Repr

namespace Rcode

def code : Rcode → UInt16
  | noError => 0
  | formErr => 1
  | servFail => 2
  | nxDomain => 3
  | notImp => 4
  | refused => 5

end Rcode

end ResolverGate
