import ResolverGate.Backend.Frame
import ResolverGate.Fault

/-! # Frame payloads

How requests and events travel in frames. Frames of unknown kinds are skipped.
-/

namespace ResolverGate

namespace Request

def toFrame : Request → Frame
  | query id qname qtype qclass =>
      ⟨1, Bytes.of64 id.raw ++ Bytes.of16 qtype.code ++ Bytes.of16 qclass.code
        ++ Bytes.ofText qname⟩
  | replaceResolvers p =>
      ⟨2, Bytes.of32 p.ifIndex ++ p.source :: p.family.tag :: p.addresses.flatMap (·.octets)⟩
  | networkChanged => ⟨3, []⟩
  | trustAnchor anchor => ⟨4, Bytes.ofText anchor⟩
  | trustAnchorsDone => ⟨5, []⟩

end Request

def textPayload (kind : PayloadKind) (m : Bytes) : Except Fault String :=
  match m.toText? with
  | some s => .ok s
  | none => .error (.backendProtocol (.invalidText kind))

def shortPayload (kind : PayloadKind) (m : Bytes) (least : Nat) : Fault :=
  .backendProtocol (.shortPayload kind m.length least)

namespace Request

def queryOfPayload (m : Bytes) : Except Fault Request :=
  let fixed := do
    let (id, m) ← Bytes.read64? m
    let (qtype, m) ← Bytes.read16? m
    let (qclass, m) ← Bytes.read16? m
    return (id, qtype, qclass, m)
  match fixed with
  | none => .error (shortPayload .query m 12)
  | some (id, qtype, qclass, m) =>
    match textPayload .query m with
    | .ok qname => .ok (.query ⟨id⟩ qname ⟨qtype⟩ ⟨qclass⟩)
    | .error e => .error e

def resolversOfPayload (m : Bytes) : Except Fault Request :=
  match Bytes.read32? m with
  | some (ifIndex, source :: tag :: octets) =>
    match AddressFamily.ofTag? tag with
    | none => .error (.backendProtocol .unknownFamily)
    | some family =>
      match IpAddress.chunks family octets with
      | (addresses, []) => .ok (.replaceResolvers ⟨ifIndex, source, family, addresses⟩)
      | _ => .error (.backendProtocol .truncatedAddress)
  | _ => .error (shortPayload .resolvers m 6)

def ofFrame (f : Frame) : Except Fault (Option Request) :=
  match f.kind.toNat with
  | 1 => some <$> queryOfPayload f.payload
  | 2 => some <$> resolversOfPayload f.payload
  | 3 => .ok (some networkChanged)
  | 4 => (some ∘ trustAnchor) <$> textPayload .trustAnchor f.payload
  | 5 => .ok (some trustAnchorsDone)
  | _ => .ok none

end Request

namespace Event

def flag (b : Bool) : UInt8 := if b then 1 else 0

def toFrame : Event → Frame
  | answer f =>
      ⟨16, Bytes.of64 f.id.raw ++ Bytes.of16 f.answerLength
        ++ flag f.srvfail :: flag f.bogus :: f.data⟩
  | trustAnchorAdd anchor => ⟨17, Bytes.ofText anchor⟩
  | trustAnchorSetDone => ⟨18, []⟩
  | trustAnchorSetAbort => ⟨19, []⟩

def answerOfPayload (m : Bytes) : Except Fault Event :=
  let fixed := do
    let (id, m) ← Bytes.read64? m
    let (length, m) ← Bytes.read16? m
    return (id, length, m)
  match fixed with
  | some (id, length, srvfail :: bogus :: data) =>
    .ok (.answer ⟨⟨id⟩, length, srvfail ≠ 0, bogus ≠ 0, data⟩)
  | _ => .error (shortPayload .answer m 12)

def ofFrame (f : Frame) : Except Fault (Option Event) :=
  match f.kind.toNat with
  | 16 => some <$> answerOfPayload f.payload
  | 17 => (some ∘ trustAnchorAdd) <$> textPayload .trustAnchor f.payload
  | 18 => .ok (some trustAnchorSetDone)
  | 19 => .ok (some trustAnchorSetAbort)
  | _ => .ok none

end Event

end ResolverGate
