/-! # Trust anchor sets

Texts without repetition, in the order of their octets, so that equal sets are
equal lists.
-/

namespace ResolverGate

structure TrustAnchors where
  anchors : List String
  deriving DecidableEq, Repr

namespace TrustAnchors

def empty : TrustAnchors := ⟨[]⟩

/-- Octets of UTF-8 and code points are in the same order. -/
def insertSorted (anchor : String) : List String → List String
  | [] => [anchor]
  | a :: as =>
    if anchor < a then anchor :: a :: as
    else if anchor = a then a :: as
    else a :: insertSorted anchor as

/-- Also tells whether the anchor is new. -/
def add (s : TrustAnchors) (anchor : String) : TrustAnchors × Bool :=
  (⟨insertSorted anchor s.anchors⟩, anchor ∉ s.anchors)

def ofList (anchors : List String) : TrustAnchors :=
  anchors.foldl (fun s a => (s.add a).1) empty

/-- The proposal replaces the set; also tells whether that changes it. -/
def merge (s proposed : TrustAnchors) : TrustAnchors × Bool :=
  if s = proposed then (s, false) else (proposed, true)

def clear (s : TrustAnchors) : TrustAnchors := { s with anchors := [] }

def fileText (s : TrustAnchors) : String :=
  String.join (s.anchors.map (· ++ "\n"))

end TrustAnchors

end ResolverGate
