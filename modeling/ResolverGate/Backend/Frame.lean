import ResolverGate.Bytes

/-! # Frames

The channel to the engine carries frames: a kind, a length and that many octets
of payload. Decoding takes frames off the front of what has arrived.
-/

namespace ResolverGate

structure Frame where
  kind : UInt32
  payload : Bytes
  deriving DecidableEq, Repr

/-- A payload, or the length stated for one, beyond the limit. -/
structure Oversized where
  length : Nat
  deriving DecidableEq, Repr

namespace Frame

def maxPayload : Nat := 65535 + 16

def encode (f : Frame) : Except Oversized Bytes :=
  let length := f.payload.length
  if length ≤ maxPayload then .ok (Bytes.of32 f.kind ++ Bytes.ofNumber 4 length ++ f.payload)
  else .error ⟨length⟩

/-- The frame at the front and what follows it; none while it is incomplete. -/
def decode (m : Bytes) : Except Oversized (Option (Frame × Bytes)) :=
  match Bytes.read32? m with
  | none => .ok none
  | some (kind, body) =>
    match Bytes.read32? body with
    | none => .ok none
    | some (length, body) =>
      if length.toNat ≤ maxPayload then
        match Bytes.splitAt? length.toNat body with
        | none => .ok none
        | some (payload, rest) => .ok (some (⟨kind, payload⟩, rest))
      else .error ⟨length.toNat⟩

theorem length_rest_of_decode {m rest : Bytes} {f : Frame}
    (h : decode m = .ok (some (f, rest))) : rest.length < m.length := by
  match m with
  | a :: b :: c :: d :: e :: i :: j :: k :: body =>
    simp only [decode, Bytes.read32?] at h
    split at h
    · split at h
      · simp at h
      · next payload tail split =>
        simp only [Except.ok.injEq, Option.some.injEq, Prod.mk.injEq] at h
        have := (Bytes.splitAt?_eq_some_iff.mp split).1
        simp [← h.2, this]
        omega
    · simp at h
  | [] | [_] | [_, _] | [_, _, _] => simp [decode, Bytes.read32?] at h
  | [_, _, _, _] | [_, _, _, _, _] | [_, _, _, _, _, _] | [_, _, _, _, _, _, _] =>
    simp [decode, Bytes.read32?] at h

/-- Every complete frame, what is left behind them, and what stopped the
decoding if it was not the lack of octets. -/
def decodeAll (m : Bytes) : List Frame × Bytes × Option Oversized :=
  match _h : decode m with
  | .error e => ([], m, some e)
  | .ok none => ([], m, none)
  | .ok (some (f, rest)) =>
    let (fs, rest, stop) := decodeAll rest
    (f :: fs, rest, stop)
termination_by m.length
decreasing_by exact length_rest_of_decode _h

end Frame

end ResolverGate
