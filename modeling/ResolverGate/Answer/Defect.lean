import ResolverGate.Message.Question

/-! # Defects of answers

Why a message of the engine cannot be taken apart, as causes; each has one
wording.
-/

namespace ResolverGate

namespace Answer

inductive Defect
  /-- The message ends inside something. -/
  | truncated
  /-- A pointer that does not lead back. -/
  | forwardPointer (position target : Nat)
  | reservedLabel (octet : UInt8)
  | longName (length : Nat)
  /-- A piece of a name runs on into the piece that points to it. -/
  | overlappingName (start fence : Nat)
  /-- An OPT record that the root does not own. -/
  | ownedOpt (owner : Labels)
  /-- Data that is longer than what is left of the message. -/
  | longData (length left : Nat)
  /-- Data whose fields do not end where it does. -/
  | dataLength (consumed length : Nat)
  /-- No data, though the message is no update. -/
  | noData
  /-- A type that only questions have. -/
  | questionType (rtype : RecordType)
  /-- A record that can only stand in the additional section. -/
  | misplaced (rtype : RecordType)
  | afterSignature
  | secondOpt
  | keyProtocol (protocol : UInt8)
  | reservedKeyFlags
  | extendedKeyFlags
  | hashAlgorithm (algorithm : UInt8)
  | hashFlags (flags : UInt8)
  | longSalt
  | longHash
  | bitmap
  | syncFlags (flags : UInt16)
  | shortCertificate
  | tagLength
  | tagCharacter
  | pointerFlags
  | longParameter (length left : Nat)
  | emptyParameter
  | parameterText
  | parameterOrder
  | longOption
  | addressFamily (family : UInt16)
  | longAddress
  | signatureDigest
  | signatureRest
  deriving DecidableEq, Repr

namespace Defect

def inBase (base n : Nat) : String := String.ofList (Nat.toDigits base n)

def text : Defect → String
  | truncated => "unexpected end of input"
  | forwardPointer position target =>
      "label points to data not prior to idx: " ++ position.repr ++ " ptr: " ++ target.repr
  | reservedLabel octet => "unrecognized label code: " ++ inBase 2 octet.toNat
  | longName length => "name label data exceed 255: " ++ length.repr
  | overlappingName start fence =>
      "overlapping labels name " ++ start.repr ++ " other " ++ fence.repr
  | ownedOpt owner => "edns resource record label must be the root label (.): " ++ owner.text
  | longData length left =>
      "rdata length too large for remaining bytes, need: " ++ length.repr ++ " remain: "
        ++ left.repr
  | dataLength consumed length =>
      "incorrect rdata length read: " ++ consumed.repr ++ " expected: " ++ length.repr
  | noData => "incorrect rdata length read: 0 expected: 1"
  | questionType rtype => "record type value unknown: " ++ rtype.code.toNat.repr
  | misplaced rtype =>
      "record type " ++ (if rtype = .sig then "SIG" else rtype.text)
        ++ " only allowed in additional section"
  | afterSignature => "TSIG or SIG(0) record must be final resource record"
  | secondOpt => "more than one edns record present"
  | keyProtocol protocol => "dns key value unknown, must be 3: " ++ protocol.toNat.repr
  | reservedKeyFlags => "flag 2, 4-5, and 8-11 are reserved, must be zero"
  | extendedKeyFlags => "extended flags currently not supported"
  | hashAlgorithm algorithm => "algorithm type value unknown: " ++ algorithm.toNat.repr
  | hashFlags flags => "nsec3 flags should be 0b0000000*: " ++ inBase 2 flags.toNat
  | longSalt => "salt_len exceeds buffer length"
  | longHash => "hash_len exceeds buffer length"
  | bitmap => "block len or left out of bounds in NSEC(3)"
  | syncFlags flags => "csync flags should be 0b000000**: " ++ inBase 2 flags.toNat
  | shortCertificate => "invalid cert_record length"
  | tagLength => "CAA tag length out of bounds, 1-15"
  | tagCharacter => "CAA tag character(s) out of bounds"
  | pointerFlags => "flags are not within range [a-zA-Z0-9]"
  | longParameter length left =>
      "length of SvcParamValue (" ++ length.repr ++ ") exceeds remainder in RDATA ("
        ++ left.repr ++ ")"
  | emptyParameter => "SvcParam expects at least one value"
  | parameterText => "error parsing utf8 string"
  | parameterOrder => "SvcParams out of order"
  | longOption => "OPT value length exceeds rdata length"
  | addressFamily family => "unknown address family: 0x" ++ inBase 16 family.toNat
  | longAddress => "invalid address length"
  | signatureDigest => "invalid mac length in TSIG"
  | signatureRest => "invalid other length in TSIG"

end Defect

end Answer

end ResolverGate
