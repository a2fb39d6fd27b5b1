/-!
# Tables of code points

A character property is a list of inclusive ranges of code points, kept in four regions so that a
look-up reads one of them only.
-/

namespace Mend.Text

/-- Some range of the table holds the code point. -/
def inRanges (table : List (Nat × Nat)) (n : Nat) : Bool :=
  table.any fun r => r.1 ≤ n && n ≤ r.2

/-- Look a code point up in the region it belongs to. -/
def inRegions (low middle high beyond : List (Nat × Nat)) (n : Nat) : Bool :=
  if n < 0x1000 then inRanges low n
  else if n < 0xA000 then inRanges middle n
  else if n < 0x10000 then inRanges high n
  else inRanges beyond n

end Mend.Text
