import Mend.Severity

/-!
# Categories of rules and kinds of issues

A scan chooses its rules by category. The kind of an issue is finer, and it is by the kind that a
fix is looked for.
-/

namespace Mend

/-- What a rule is about. -/
inductive Category where
  | memoryLeak | retainCycle | raceCondition | stateInconsistency | nullSafety | typeMismatch
  | controlFlow
  deriving Repr, DecidableEq

namespace Category

/-- The name in records and reports. -/
def name : Category → String
  | memoryLeak => "memory_leak"
  | retainCycle => "retain_cycle"
  | raceCondition => "race_condition"
  | stateInconsistency => "state_inconsistency"
  | nullSafety => "null_safety"
  | typeMismatch => "type_mismatch"
  | controlFlow => "control_flow"

/-- Every category, in the order in which rules run. -/
def all : List Category :=
  [memoryLeak, retainCycle, raceCondition, stateInconsistency, nullSafety, typeMismatch,
   controlFlow]

/-- The category with exactly this name. -/
def ofName? (s : String) : Option Category := all.find? fun c => c.name == s

/-- Read a category; a hyphen does for a low line. -/
def parse (s : String) : Except UnknownName Category :=
  match ofName? (Text.replaced s "-" "_") with
  | some c => .ok c
  | none => .error ⟨"category", s⟩

/-- Read a category of a record. -/
def ofData? (format : Data.Format) (d : Data) : Option Category :=
  (d.toName? format).bind ofName?

end Category

/-- What is wrong at one place. -/
inductive IssueKind where
  | leak | retainCycle | unclosedResource | raceCondition | stateInconsistency | nullReference
  | typeMismatch | infiniteLoop | unreachableCode
  deriving Repr, DecidableEq

namespace IssueKind

/-- The name in records and reports. -/
def name : IssueKind → String
  | leak => "leak"
  | retainCycle => "retain_cycle"
  | unclosedResource => "unclosed_resource"
  | raceCondition => "race_condition"
  | stateInconsistency => "state_inconsistency"
  | nullReference => "null_reference"
  | typeMismatch => "type_mismatch"
  | infiniteLoop => "infinite_loop"
  | unreachableCode => "unreachable_code"

/-- Every kind, in the order in which counts are listed. -/
def all : List IssueKind :=
  [leak, retainCycle, unclosedResource, raceCondition, stateInconsistency, nullReference,
   typeMismatch, infiniteLoop, unreachableCode]

/-- The kind with exactly this name. -/
def ofName? (s : String) : Option IssueKind := all.find? fun k => k.name == s

/-- Read a kind of a record. -/
def ofData? (d : Data) : Option IssueKind := (d.toName? .json).bind ofName?

end IssueKind

end Mend
