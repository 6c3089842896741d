import ResolverGate.Backend.Sending
import ResolverGate.Notice
import ResolverGate.TrustAnchor.Set

/-! # Trust anchor manager

The active set, which the engine knows, and the set that it is proposing. A
completed proposal becomes active, is saved, and is announced if it changed
anything.
-/

namespace ResolverGate

/-- How anchors are kept; `S` is what holds them. -/
structure AnchorStore (S : Type) where
  load : S → Except Fault (List String) × List Notice
  save : TrustAnchors → S → Except Fault Unit × S

structure AnchorManager (S : Type) where
  active : TrustAnchors
  proposed : TrustAnchors
  /-- None if anchors are not kept. -/
  store : Option S

namespace AnchorManager

variable {S : Type} (m : AnchorManager S)

def start (store : Option S) : AnchorManager S := ⟨.empty, .empty, store⟩

def announcement (anchors : TrustAnchors) : List Request :=
  anchors.anchors.map .trustAnchor ++ [.trustAnchorsDone]

structure Effects where
  sent : List Request
  notices : List Notice

/-- Kept anchors become active and are announced, if there are any. Gives their
number. -/
def load (ops : AnchorStore S) (backend : Backend) :
    Except Fault Nat × AnchorManager S × Effects :=
  match m.store with
  | none => (.ok 0, m, ⟨[], []⟩)
  | some store =>
    match ops.load store with
    | (.error e, notices) => (.error e, m, ⟨[], notices⟩)
    | (.ok anchors, notices) =>
      let active := anchors.foldl (fun s a => (s.add a).1) m.active
      let m := { m with active }
      let count := active.anchors.length
      let notices := notices ++ [.anchorsLoaded count]
      let (sent, result) := backend.sendAll 0 (if count = 0 then [] else announcement active)
      match result with
      | .ok () => (.ok count, m, ⟨sent, notices⟩)
      | .error e => (.error e, m, ⟨sent, notices⟩)

def propose (anchor : String) : AnchorManager S :=
  { m with proposed := (m.proposed.add anchor).1 }

def abort : AnchorManager S := { m with proposed := .empty }

/-- Saving may fail without harm. Gives whether the active set changed. -/
def complete (ops : AnchorStore S) (backend : Backend) :
    Except Fault Bool × AnchorManager S × Effects :=
  let (active, changed) := m.active.merge m.proposed
  let saved := m.store.map (ops.save active)
  let notices := match saved with
    | some (.error e, _) => [.anchorsNotSaved e]
    | _ => []
  let m : AnchorManager S := ⟨active, .empty, saved.map (·.2)⟩
  if changed then
    let notices := notices ++ [.anchorsChanged active.anchors.length]
    let (sent, result) := backend.sendAll 0 (announcement active)
    match result with
    | .ok () => (.ok true, m, ⟨sent, notices⟩)
    | .error e => (.error e, m, ⟨sent, notices⟩)
  else (.ok false, m, ⟨[], notices⟩)

end AnchorManager

end ResolverGate
