import Mend.Data.Basic

/-!
# Severities
-/

namespace Mend

/-- A word that names nothing of its kind. -/
structure UnknownName where
  /-- What was looked for. -/
  kind : String
  /-- The word as the message shows it. -/
  given : String
  deriving Repr, DecidableEq

namespace UnknownName

/-- The error in words. -/
def message (e : UnknownName) : String := "unknown " ++ e.kind ++ " '" ++ e.given ++ "'"

end UnknownName

/-- How bad an issue is. -/
inductive Severity where
  | info | low | medium | high | critical
  deriving Repr, DecidableEq

namespace Severity

/-- The name in records and reports. -/
def name : Severity → String
  | info => "info"
  | low => "low"
  | medium => "medium"
  | high => "high"
  | critical => "critical"

/-- Every severity, the mildest first. -/
def all : List Severity := [info, low, medium, high, critical]

/-- The severity with exactly this name. -/
def ofName? (s : String) : Option Severity := all.find? fun v => v.name == s

/-- Read a severity; letter case does not count. -/
def parse (s : String) : Except UnknownName Severity :=
  match ofName? (Text.asciiLower s) with
  | some v => .ok v
  | none => .error ⟨"severity", Text.asciiLower s⟩

/-- The place in the order. -/
def rank : Severity → Nat
  | info => 0
  | low => 1
  | medium => 2
  | high => 3
  | critical => 4

/-- At least as bad as `bound`. -/
def atLeast (s bound : Severity) : Bool := bound.rank ≤ s.rank

/-- One step milder; the mildest stays. -/
def downgrade : Severity → Severity
  | critical => high
  | high => medium
  | medium => low
  | low | info => info

/-- Read a severity of a record. -/
def ofData? (format : Data.Format) (d : Data) : Option Severity :=
  (d.toName? format).bind ofName?

end Severity

end Mend
