import Mend.Diff.Lookahead

/-!
# Shortest edit scripts

A longest common subsequence of two lists gives a shortest edit script. What the lists have in
common at the start and at the end is kept first, so that the quadratic table covers only what lies
between; where even that table would be too large, the walk with a look ahead takes its place.

`Table.rows old new` holds, for each suffix of `old`, the lengths of a longest common subsequence
with each suffix of `new`.
-/

namespace Mend.Diff

variable {α : Type} [DecidableEq α]

/-- How many cells a table may have. -/
def tableLimit : Nat := 4000000

/-- How many items two lists have in common at the start. -/
def commonPrefix : List α → List α → Nat
  | a :: as, b :: bs => if a = b then commonPrefix as bs + 1 else 0
  | _, _ => 0

/-- The row of a list that starts with `a`, from the row below it: for each suffix of the new list
the length of a longest common subsequence. -/
def Table.row (a : α) : List α → List Nat → List Nat
  | b :: bs, p :: ps =>
    let rest := Table.row a bs ps
    (if a = b then ps.headD 0 + 1 else max p (rest.headD 0)) :: rest
  | _, _ => [0]

/-- The rows of all suffixes of the old list, the longest suffix first. -/
def Table.rows (old new : List α) : List (List Nat) :=
  match old with
  | [] => [List.replicate (new.length + 1) 0]
  | a :: old =>
    let below := Table.rows old new
    Table.row a new (below.headD []) :: below

/-- Walk the table from its corner; `rows` starts with the row of `old`, and `j` items of the new
list are behind. Of two equally good steps the deletion is taken. -/
def Table.walk : List α → List α → List (Array Nat) → Nat → List (Edit α)
  | [], new, _, _ => new.map .insert
  | a :: old, [], _, _ => (a :: old).map .delete
  | a :: old, b :: new, rows, j =>
    if a = b then .keep a :: Table.walk old new rows.tail (j + 1)
    else
      let here := rows.headD #[]
      let below := rows.tail.headD #[]
      if here.getD (j + 1) 0 ≤ below.getD j 0 then
        .delete a :: Table.walk old (b :: new) rows.tail j
      else .insert b :: Table.walk (a :: old) new rows (j + 1)
termination_by old new => old.length + new.length

/-- The script of a walk through the whole table. -/
def tableScript (old new : List α) : List (Edit α) :=
  Table.walk old new ((Table.rows old new).map List.toArray) 0

/-- A shortest edit script, unless the table would be too large. -/
def shortest (old new : List α) : List (Edit α) :=
  let front := commonPrefix old new
  let oldRest := old.drop front
  let newRest := new.drop front
  let back := commonPrefix oldRest.reverse newRest.reverse
  let oldMiddle := oldRest.take (oldRest.length - back)
  let newMiddle := newRest.take (newRest.length - back)
  let middle :=
    if tableLimit < (oldMiddle.length + 1) * (newMiddle.length + 1) then
      lookahead oldMiddle newMiddle
    else tableScript oldMiddle newMiddle
  (old.take front).map .keep ++ middle ++ (oldRest.drop (oldRest.length - back)).map .keep

end Mend.Diff
