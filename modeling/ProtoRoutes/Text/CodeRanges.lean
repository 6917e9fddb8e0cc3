/-!
# ProtoRoutes.Text.CodeRanges

Sets of characters, given as intervals of code points. The tables of the character classes are
values of `CodeRanges`.
-/

namespace ProtoRoutes.Text

/-- Intervals of code points, both ends included. -/
abbrev CodeRanges := List (Nat × Nat)

/-- Whether a character lies in one of the intervals. -/
def CodeRanges.contains (ranges : CodeRanges) (c : Char) : Bool :=
  ranges.any fun r => r.1 ≤ c.toNat && c.toNat ≤ r.2

end ProtoRoutes.Text
