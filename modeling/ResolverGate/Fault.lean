import ResolverGate.Backend.Request

/-! # Faults

What can go wrong, as causes; each has one wording.
-/

namespace ResolverGate

inductive PayloadKind
  | query | resolvers | trustAnchor | answer
  deriving DecidableEq, Repr

def PayloadKind.text : PayloadKind → String
  | query => "query"
  | resolvers => "resolvers"
  | trustAnchor => "trust anchor"
  | answer => "answer"

inductive Violation
  | shortPayload (payload : PayloadKind) (length least : Nat)
  | unknownFamily
  | truncatedAddress
  | invalidText (payload : PayloadKind)
  /-- A fragment that does not fit the answer it belongs to. -/
  | overrun (length offset capacity : Nat) (id : QueryId)
  | oversizedFrame (length : Nat)
  /-- The stream ends inside a frame. -/
  | unfinishedFrame
  deriving DecidableEq, Repr

def oversizedFrameText (length : Nat) : String :=
  "frame of " ++ length.repr ++ " bytes exceeds limit"

def Violation.text : Violation → String
  | shortPayload payload length least =>
      payload.text ++ ": " ++ length.repr ++ " bytes, expected at least " ++ least.repr
  | unknownFamily => "resolvers: unknown address family"
  | truncatedAddress => "resolvers: truncated address"
  | invalidText payload => payload.text ++ ": invalid utf-8"
  | overrun length offset capacity id =>
      "answer fragment of " ++ length.repr ++ " bytes at offset " ++ offset.repr ++ " exceeds "
        ++ capacity.repr ++ " byte answer for query " ++ id.text
  | oversizedFrame length => oversizedFrameText length
  | unfinishedFrame => "bytes remaining on stream"

inductive EncodingError
  | shortAnswer
  | unparseable (cause : String)
  /-- What the writer of the reply says. -/
  | refused (cause : String)
  /-- More records than a header can count. -/
  | largeSection
  deriving DecidableEq, Repr

inductive KeyField
  | flags | protocol | algorithm
  deriving DecidableEq, Repr

def KeyField.text : KeyField → String
  | flags => "flags"
  | protocol => "protocol"
  | algorithm => "algorithm"

inductive AnchorError
  | emptyLine
  | missingType
  | notKey (token : String)
  | badField (field : KeyField)
  | missingKey
  | badKey (cause : String)
  | wrongProtocol (protocol : UInt8)
  | notZoneKey
  deriving DecidableEq, Repr

def AnchorError.text : AnchorError → String
  | emptyLine => "empty line"
  | missingType => "missing record type"
  | notKey token => "not a DNSKEY record: " ++ token
  | badField field => "bad " ++ field.text
  | missingKey => "missing public key"
  | badKey cause => "bad public key: " ++ cause
  | wrongProtocol protocol => "protocol " ++ protocol.toNat.repr ++ " (expected 3)"
  | notZoneKey => "zone key flag not set"

inductive Fault
  | outOfMemory (size : Nat)
  | bufferOverflow (needed available : Nat)
  | duplicateQueryId (id : QueryId)
  | backendUnavailable
  | backendProtocol (violation : Violation)
  | answerEncoding (error : EncodingError)
  | invalidTrustAnchor (error : AnchorError)
  | io (cause : String)
  deriving DecidableEq, Repr

def EncodingError.message : EncodingError → String
  | shortAnswer => "Answer encoding failed: answer shorter than a header"
  | unparseable cause => "Answer encoding failed: unparseable answer: " ++ cause
  | refused cause => "Answer encoding failed: " ++ cause
  | largeSection => "Answer encoding failed: section too large"

def Fault.message : Fault → String
  | outOfMemory size => "Out of memory allocating " ++ size.repr ++ " bytes"
  | bufferOverflow needed available =>
      "Buffer overflow: " ++ needed.repr ++ " bytes needed, " ++ available.repr ++ " available"
  | duplicateQueryId id => "Duplicate query id: " ++ id.text
  | backendUnavailable => "Backend channel unavailable"
  | backendProtocol violation => "Backend protocol violation: " ++ violation.text
  | answerEncoding error => error.message
  | invalidTrustAnchor error => "Invalid trust anchor: " ++ error.text
  | io cause => "I/O error: " ++ cause

end ResolverGate
