/-!
# Remembered values

A function of natural numbers can be kept together with the values that it has given so far. Each
value is worked out when it is first asked for, and then stays. The cells stand in chunks that are
made on demand too, so that a large table of which little is used costs little.

A remembered function answers as the function itself does (`Memo.get_of`).
-/

namespace Mend

/-- Cells for the values of a function, none of them worked out before it is asked for. -/
structure Memo (α : Type) where
  chunks : Array (Thunk (Array (Thunk α)))

namespace Memo

/-- How many cells a chunk has. -/
def chunkSize : Nat := 64

/-- Cells for the values of `f` from zero to a bound. -/
def of {α : Type} (bound : Nat) (f : Nat → α) : Memo α :=
  ⟨((List.range' 0 (bound / chunkSize + 1)).map fun k => Thunk.mk fun _ =>
    ((List.range' (chunkSize * k) chunkSize).map fun i => Thunk.mk fun _ => f i).toArray).toArray⟩

/-- The value of `f` at `i`, from its cell if there is one. -/
def get {α : Type} (m : Memo α) (f : Nat → α) (i : Nat) : α :=
  match m.chunks[i / chunkSize]? with
  | none => f i
  | some chunk =>
    match chunk.get[i % chunkSize]? with
    | none => f i
    | some cell => cell.get

/-- The cells hold the values of the function that they were made for. -/
theorem get_of {α : Type} (bound : Nat) (f : Nat → α) (i : Nat) : (of bound f).get f i = f i := by
  have index : chunkSize * (i / chunkSize) + i % chunkSize = i := Nat.div_add_mod i chunkSize
  have inner : i % chunkSize < chunkSize := Nat.mod_lt i (by decide)
  by_cases h : i / chunkSize < bound / chunkSize + 1
  · simp [of, get, Thunk.get, h, inner, index]
  · simp [of, get, h]

end Memo

end Mend
