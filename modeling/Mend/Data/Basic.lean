import Mend.Text.Search

/-!
# Plain data

Records are kept and configured as trees of plain data: absent values, truth values, numbers,
texts, lists and records with named fields in order. A number that is not written as a whole number
keeps its digits (`real`), and so does a moment in time, for nothing here computes with them. What
is well-formed but has no reading as text is `garbled`: it does no harm where nobody asks for it.

`Fields` is how a record is read. A record may also be given as a list, field by field in the order
of its names; fields that nobody asks for are skipped, and a field that is asked for may not be
given twice. The two notations differ in a few such allowances (`Data.Format`).
-/

namespace Mend

/-- A tree of plain data. -/
inductive Data where
  | null
  | bool (b : Bool)
  | int (n : Int)
  /-- A number with a fraction or an exponent, as it is written. -/
  | real (digits : String)
  /-- A date or a time of day, as it is written. -/
  | moment (digits : String)
  | text (s : String)
  | list (items : List Data)
  | record (fields : List (String × Data))
  /-- A text, or a record with such a name, that is not made of characters. -/
  | garbled
  deriving Repr

namespace Data

/-- The notation that a tree was written in. -/
inductive Format where
  | json | toml
  deriving Repr, DecidableEq

/-- A truth value. -/
def toBool? : Data → Option Bool
  | .bool b => some b
  | _ => none

/-- A text. -/
def toText? : Data → Option String
  | .text s => some s
  | _ => none

/-- A whole number from zero up to `limit`. -/
def toNat? (limit : Nat) : Data → Option Nat
  | .int n => if 0 ≤ n ∧ n ≤ limit then some n.toNat else none
  | _ => none

/-- The largest number of one byte. -/
def byteLimit : Nat := 255

/-- The largest line or column number. -/
def lineLimit : Nat := 4294967295

/-- The largest count. -/
def countLimit : Nat := 18446744073709551615

/-- What stands for nothing under the name of a choice: `null` in JSON, an empty table or list in
TOML. -/
def isNothing : Format → Data → Bool
  | .json, .null => true
  | .toml, .record [] => true
  | .toml, .list [] => true
  | _, _ => false

/-- A choice between names: the name itself, or a record with the name as its one field and nothing
in it. -/
def toName? (format : Format) : Data → Option String
  | .text s => some s
  | .record [(s, d)] => if isNothing format d then some s else none
  | _ => none

/-- A list, each item read by `read?`. -/
def toList? {α : Type} (read? : Data → Option α) : Data → Option (List α)
  | .list items => items.mapM read?
  | _ => none

/-- A value or nothing; `null` is nothing. -/
def toOption? {α : Type} (read? : Data → Option α) : Data → Option (Option α)
  | .null => some none
  | d => (read? d).map some

/-- A text or nothing. -/
def ofText? : Option String → Data
  | some s => .text s
  | none => .null

/-- A number or nothing. -/
def ofNat? : Option Nat → Data
  | some n => .int n
  | none => .null

/-- A number. -/
def ofNat (n : Nat) : Data := .int n

/-- The field of a record with a name. -/
def get? (d : Data) (name : String) : Option Data :=
  match d with
  | .record fields => (fields.find? fun f => f.1 == name).map (·.2)
  | _ => none

mutual

/-- The same tree with the fields of every record in the order of their names. -/
def sorted : Data → Data
  | .list items => .list (sortedItems items)
  | .record fields => .record ((sortedFields fields).mergeSort fun a b => a.1 ≤ b.1)
  | d => d

/-- Each item `sorted`. -/
def sortedItems : List Data → List Data
  | [] => []
  | d :: ds => sorted d :: sortedItems ds

/-- The value of each field `sorted`. -/
def sortedFields : List (String × Data) → List (String × Data)
  | [] => []
  | (name, d) :: fs => (name, sorted d) :: sortedFields fs

end

end Data

/-- What a record says about the fields that are asked for, in the order of their names. -/
structure Fields where
  given : List (String × Option Data)

namespace Fields

/-- Read a record, or a list that gives the fields in order. In JSON the list may not be longer than
the names; a moment of TOML is a record without any of them. -/
def of? (format : Data.Format) (names : List String) : Data → Option Fields
  | .record fields =>
    if names.any fun n => 1 < fields.countP fun f => f.1 == n then none
    else some ⟨names.map fun n => (n, (fields.find? fun f => f.1 == n).map (·.2))⟩
  | .list items =>
    if format = .json ∧ names.length < items.length then none
    else some ⟨names.zipIdx.map fun (n, i) => (n, items[i]?)⟩
  | .moment _ => some ⟨[]⟩
  | _ => none

/-- The value of a field, if it is given. -/
def get? (f : Fields) (name : String) : Option Data :=
  (f.given.find? fun g => g.1 == name).bind (·.2)

/-- A field that has to be there. -/
def required {α : Type} (f : Fields) (name : String) (read? : Data → Option α) : Option α :=
  (f.get? name).bind read?

/-- A field that may be left out, or be `null`. -/
def optional {α : Type} (f : Fields) (name : String) (read? : Data → Option α) :
    Option (Option α) :=
  match f.get? name with
  | none => some none
  | some d => d.toOption? read?

/-- A field that has a value of its own when it is left out. -/
def withDefault {α : Type} (f : Fields) (name : String) (read? : Data → Option α) (default : α) :
    Option α :=
  match f.get? name with
  | none => some default
  | some d => read? d

end Fields

end Mend
