import ResolverGate.Fault

/-! # Sending requests

The channel takes requests or refuses them. Nothing is sent behind a request
that it refused.
-/

namespace ResolverGate

/-- How the channel takes the requests of one operation: its verdict on the
`n`th of them, counted from 0. -/
abbrev Backend := Nat → Request → Except Fault Unit

namespace Backend

/-- A channel that takes so many more requests; none for any number. -/
def allowing (allowance : Option Nat) : Backend := fun n _ =>
  match allowance with
  | some most => if n < most then .ok () else .error .backendUnavailable
  | none => .ok ()

/-- Sends requests in order, the first of them as the `n`th of the operation;
gives those sent before the first failure. -/
def sendAll (backend : Backend) : Nat → List Request → List Request × Except Fault Unit
  | _, [] => ([], .ok ())
  | n, r :: rs =>
    match backend n r with
    | .error e => ([], .error e)
    | .ok () =>
      let (sent, result) := sendAll backend (n + 1) rs
      (r :: sent, result)

end Backend

end ResolverGate
