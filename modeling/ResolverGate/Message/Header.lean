import ResolverGate.Bytes
import ResolverGate.Message.Code

/-! # Message headers

The twelve octets that open every message. A header reads back as it was
written, whatever follows it.
-/

namespace ResolverGate

structure Header where
  id : UInt16
  flags : UInt16
  qdcount : UInt16
  ancount : UInt16
  nscount : UInt16
  arcount : UInt16
  deriving DecidableEq, Repr

namespace Header

def size : Nat := 12

def qr : UInt16 := 0x8000
def opcodeMask : UInt16 := 0x7800
def tc : UInt16 := 0x0200
def rd : UInt16 := 0x0100
def ra : UInt16 := 0x0080
def ad : UInt16 := 0x0020
def cd : UInt16 := 0x0010
def rcodeMask : UInt16 := 0x000F

/-- The header at the front of a message, and what follows it. -/
def read? (m : Bytes) : Option (Header × Bytes) := do
  let (id, m) ← Bytes.read16? m
  let (flags, m) ← Bytes.read16? m
  let (qdcount, m) ← Bytes.read16? m
  let (ancount, m) ← Bytes.read16? m
  let (nscount, m) ← Bytes.read16? m
  let (arcount, m) ← Bytes.read16? m
  return (⟨id, flags, qdcount, ancount, nscount, arcount⟩, m)

def encode (h : Header) : Bytes :=
  Bytes.of16 h.id ++ Bytes.of16 h.flags ++ Bytes.of16 h.qdcount
    ++ Bytes.of16 h.ancount ++ Bytes.of16 h.nscount ++ Bytes.of16 h.arcount

variable (h : Header)

def isResponse : Bool := h.flags &&& qr != 0

def truncated : Bool := h.flags &&& tc != 0

def recursionDesired : Bool := h.flags &&& rd != 0

def checkingDisabled : Bool := h.flags &&& cd != 0

def opcode : UInt16 := (h.flags &&& opcodeMask) >>> 11

def rcode : UInt16 := h.flags &&& rcodeMask

@[simp] theorem length_encode : h.encode.length = size := by simp [encode, size]

theorem read?_encode (m : Bytes) : read? (h.encode ++ m) = some (h, m) := by
  simp [read?, encode, Bytes.read16?_of16]

end Header

end ResolverGate
