/-!
# Edit scripts

An edit script walks from one list to another: each edit keeps an item, deletes one of the old list
or inserts one of the new list. `olds` and `news` read off the two lists that a script is about.
-/

namespace Mend.Diff

/-- One step of an edit script. -/
inductive Edit (α : Type) where
  | keep (a : α)
  | delete (a : α)
  | insert (a : α)
  deriving Repr, DecidableEq

namespace Edit

variable {α : Type}

/-- The edit changes nothing. -/
def isKeep : Edit α → Bool
  | keep _ => true
  | _ => false

/-- The item of the old list that an edit takes. -/
def old? : Edit α → Option α
  | keep a | delete a => some a
  | insert _ => none

/-- The item of the new list that an edit gives. -/
def new? : Edit α → Option α
  | keep a | insert a => some a
  | delete _ => none

end Edit

/-- The list that a script starts from. -/
def olds {α : Type} (edits : List (Edit α)) : List α := edits.filterMap Edit.old?

/-- The list that a script arrives at. -/
def news {α : Type} (edits : List (Edit α)) : List α := edits.filterMap Edit.new?

end Mend.Diff
