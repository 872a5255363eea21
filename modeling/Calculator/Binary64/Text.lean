import Calculator.Decimal.Layout
import Calculator.Decimal.Shortest

/-!
The text of a value.

Magnitudes from `10 ^ -4` up to `10 ^ 16`, and zero, have the point in its place; the others have
an exponent. The digits are the fewest that read back.
-/

set_option autoImplicit false

namespace Calculator.Binary64

/-- The rank of the least value other than zero that is written without an exponent. -/
def firstPositionalRank : Nat := (⟨1, -4⟩ : Decimal).rank

/-- The rank of the least value above it that is written with one. -/
def firstLargeRank : Nat := (⟨1, 16⟩ : Decimal).rank

def isPositional (rank : Nat) : Bool :=
  decide (rank = 0 ∨ (firstPositionalRank ≤ rank ∧ rank < firstLargeRank))

def magnitudeText (rank : Nat) : List Char :=
  if rank = infinityRank then "inf".toList
  else if isPositional rank then (Decimal.shortest rank).positional
  else (Decimal.shortest rank).scientific

/-- The text of a value. Zero keeps its sign; what is not a number has none. -/
def text (value : Float) : List Char :=
  if isNaN value then "NaN".toList
  else (if isNegative value then ['-'] else []) ++ magnitudeText (rank value)

end Calculator.Binary64
