import ResolverGate.Message.Edns

/-! # Locally built replies

Error replies and the answer to an identity question: the client's id, its RD
and CD bits, and its question as received.
-/

namespace ResolverGate

namespace Reply

def announcedSize : UInt16 := 4096

/-- QR and RA, the client's RD and CD, and the response code. -/
def flags (query : Header) (rcode : Rcode) : UInt16 :=
  Header.qr ||| Header.ra ||| (query.flags &&& (Header.rd ||| Header.cd)) ||| rcode.code

/-- A root-owned OPT record with the given DO bit. -/
def optRecord (dnssecOk : Bool) : Bytes :=
  0 :: Bytes.of16 RecordType.opt.code ++ Bytes.of16 announcedSize
    ++ Bytes.of32 (if dnssecOk then Edns.doBit else 0) ++ Bytes.of16 0

/-- Echoes the question if there is one; an OPT record answers an OPT record. -/
def error (query : Header) (question : Option Question) (edns : Option Edns)
    (rcode : Rcode) : Bytes :=
  let header : Header :=
    { id := query.id
      flags := flags query rcode
      qdcount := if question.isSome then 1 else 0
      ancount := 0
      nscount := 0
      arcount := if edns.isSome then 1 else 0 }
  header.encode ++ (question.map (·.wire)).getD []
    ++ (edns.map fun e => optRecord e.dnssecOk).getD []

/-- One TXT record of class CH, owned by the question's name and holding the
first 255 octets of the text. -/
def identity (query : Header) (question : Question) (text : String) : Bytes :=
  let text := (Bytes.ofText text).take 255
  let header : Header :=
    { id := query.id
      flags := flags query .noError
      qdcount := 1
      ancount := 1
      nscount := 0
      arcount := 0 }
  header.encode ++ question.wire
    ++ [0xC0, 0x0C] ++ Bytes.of16 RecordType.txt.code ++ Bytes.of16 RecordClass.chaos.code
    ++ Bytes.of32 0 ++ Bytes.of16 (UInt16.ofNat (text.length + 1))
    ++ UInt8.ofNat text.length :: text

end Reply

end ResolverGate
