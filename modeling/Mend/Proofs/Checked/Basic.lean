import Mend.Text.Offset

/-!
# Accesses that may be refused

Steps back from an offset, single elements of a list and its parts, each refused where it lies
outside.
-/

namespace Mend.Checked

open Text (BadOffset)

/-- The offset `n` bytes earlier, which must not lie before the start. -/
def stepBack (n offset : Nat) : Except BadOffset Nat :=
  if n ≤ offset then .ok (offset - n) else .error ⟨offset⟩

theorem stepBack_eq {n offset : Nat} (h : n ≤ offset) : stepBack n offset = .ok (offset - n) :=
  if_pos h

section

variable {α : Type} {l : List α} {n : Nat}

/-- The element at a place. -/
def itemAt (n : Nat) (l : List α) : Except BadOffset α :=
  match l[n]? with
  | some a => .ok a
  | none => .error ⟨n⟩

/-- The elements before a place. -/
def frontOf (n : Nat) (l : List α) : Except BadOffset (List α) :=
  if n ≤ l.length then .ok (l.take n) else .error ⟨n⟩

/-- The elements from a place on. -/
def restOf (n : Nat) (l : List α) : Except BadOffset (List α) :=
  if n ≤ l.length then .ok (l.drop n) else .error ⟨n⟩

/-- The elements from a place on and before another. -/
def partOf (start stop : Nat) (l : List α) : Except BadOffset (List α) := do
  let front ← frontOf stop l
  restOf start front

/-- The list with another element at a place. -/
def setAt (n : Nat) (a : α) (l : List α) : Except BadOffset (List α) :=
  if n < l.length then .ok (l.set n a) else .error ⟨n⟩

theorem itemAt_eq {a : α} (h : l[n]? = some a) : itemAt n l = .ok a := by
  rw [itemAt, h]

theorem frontOf_eq (h : n ≤ l.length) : frontOf n l = .ok (l.take n) := if_pos h

theorem restOf_eq (h : n ≤ l.length) : restOf n l = .ok (l.drop n) := if_pos h

theorem partOf_eq {start stop : Nat} (hle : start ≤ stop) (h : stop ≤ l.length) :
    partOf start stop l = .ok ((l.drop start).take (stop - start)) := by
  have hfront : start ≤ (l.take stop).length := by
    rw [List.length_take]
    omega
  rw [partOf, frontOf_eq h, ← List.drop_take]
  exact restOf_eq hfront

theorem setAt_eq (a : α) (h : n < l.length) : setAt n a l = .ok (l.set n a) := if_pos h

end

end Mend.Checked
