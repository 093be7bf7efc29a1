/-!
# Ranges of code points

A property of characters is stored as the list of the ranges of code points that have it.
-/

namespace JassExpr

namespace Text

/-- The code points from `first` to `last`, both included. -/
structure CodeRange where
  first : Nat
  last : Nat

def CodeRange.contains (range : CodeRange) (character : Char) : Bool :=
  range.first ≤ character.toNat && character.toNat ≤ range.last

def CodeRange.ofBounds (bounds : List (Nat × Nat)) : List CodeRange :=
  bounds.map fun (first, last) => ⟨first, last⟩

def inRanges (ranges : List CodeRange) (character : Char) : Bool :=
  ranges.any (·.contains character)

end Text

end JassExpr
