import Stencil.Text.CodePoint

/-!
# Ranges of code points

A class of characters, written as the list of the closed ranges of code points that make it up.
-/

namespace Stencil
namespace Text

/-- Closed ranges of code points. -/
abbrev Ranges := List (Nat × Nat)

/-- The character lies in one of the ranges. -/
def Ranges.holds (ranges : Ranges) (c : CodePoint) : Bool :=
  ranges.any fun range => decide (range.1 ≤ c.toNat) && decide (c.toNat ≤ range.2)

theorem Ranges.holds_iff (ranges : Ranges) (c : CodePoint) :
    ranges.holds c = true ↔ ∃ range ∈ ranges, range.1 ≤ c.toNat ∧ c.toNat ≤ range.2 := by
  simp [Ranges.holds]

end Text
end Stencil
