import Mend.Proofs.Patch.Drifted
import Mend.Proofs.Ratio

/-!
# The ladder of the locator

A snippet is looked for in two ways, the second only if the first finds nothing. Of the places where
the snippet stands line by line, blanks around the lines aside, the nearest to the old line is taken
(`Matches`). Else, of the places within reach of the old line (`Reachable`), the one with the
greatest share of lines that still agree is taken, if that share passes the bound (`Outranks`).
`locate_ladder` says that this is all: each way succeeds exactly if there is such a place, and what
it gives is the best one. Shares are exact fractions; they meet the bound as numbers of 53 bits, and
since rounding keeps the order this differs from the fractions only if both round to one number.

How far the reach goes is a count. Where the old line and the offset add up to more than a count, the
reach ends before the old line (`not_locate_ladder`).
-/

namespace Mend.Patch

variable {lines snippet : List (List Char)} {l : Locator} {expected near start n : Nat}

/-! ## Where a snippet stands -/

/-- The places that are tried once the snippet is found to stand nowhere. -/
def reach (l : Locator) (lines snippet : List (List Char)) (expected : Nat) : List Nat :=
  let lo := expected - l.anchorOffset
  let hi := min (Count.wrapped (expected + l.anchorOffset)) (lines.length - snippet.length)
  List.range' lo (hi + 1 - lo)

end Mend.Patch
