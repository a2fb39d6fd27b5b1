import Mend.Fault

/-!
# What is kept

The records are the issues, the fixes and the audit trail. Issues and fixes are found by their ids;
the trail only grows.
-/

namespace Mend

/-- Which issues to list. -/
structure IssueFilter where
  platform : Option Platform := none
  kind : Option IssueKind := none
  minSeverity : Option Severity := none
  rule : Option String := none
  file : Option Path := none
  heuristic : Option Bool := none
  deriving Repr, DecidableEq

/-- The filter lets an issue through. -/
def IssueFilter.accepts (f : IssueFilter) (i : Issue) : Bool :=
  f.platform.all (i.platform = ·) && f.kind.all (i.kind = ·) && f.minSeverity.all i.severity.atLeast
    && f.rule.all (i.rule = ·) && f.file.all i.file.same && f.heuristic.all (i.heuristic = ·)

/-- Which fixes to list. -/
structure FixFilter where
  status : Option FixStatus := none
  issueId : Option String := none
  file : Option Path := none
  deriving Repr, DecidableEq

/-- The filter lets a fix through. -/
def FixFilter.accepts (f : FixFilter) (x : Fix) : Bool :=
  f.status.all (x.status = ·) && f.issueId.all (x.issueId = ·) && f.file.all x.file.same

/-- Everything that a store keeps. -/
structure Records where
  issues : List Issue := []
  fixes : List Fix := []
  applications : List Application := []
  deriving Repr, DecidableEq

namespace Records

/-- Replace the first item with the key of a new one, or add it at the end. -/
def put {α : Type} (key : α → String) (a : α) : List α → List α
  | [] => [a]
  | b :: bs => if key b = key a then a :: bs else b :: put key a bs

/-- Keep issues; one with a known id takes the place of the old one. -/
def saveIssues (r : Records) (issues : List Issue) : Records :=
  { r with issues := issues.foldl (fun kept i => put Issue.id i kept) r.issues }

/-- The issue with an id. -/
def issue? (r : Records) (id : String) : Option Issue := r.issues.find? fun i => i.id = id

/-- Issues in the order of listing. -/
def listIssues (r : Records) (filter : IssueFilter) : List Issue :=
  (r.issues.filter filter.accepts).mergeSort fun a b => a.toFinding.listedBefore b.toFinding

/-- Forget issues. -/
def deleteIssues (r : Records) (ids : List String) : Records :=
  { r with issues := r.issues.filter fun i => !ids.contains i.id }

/-- How many issues have one of the ids. -/
def countIssues (r : Records) (ids : List String) : Nat :=
  r.issues.countP fun i => ids.contains i.id

/-- Keep a fix; one with a known id takes the place of the old one. -/
def saveFix (r : Records) (fix : Fix) : Records := { r with fixes := put Fix.id fix r.fixes }

/-- The fix with an id. -/
def fix? (r : Records) (id : String) : Option Fix := r.fixes.find? fun f => f.id = id

/-- Fixes in the order in which they were made. -/
def listFixes (r : Records) (filter : FixFilter) : List Fix :=
  (r.fixes.filter filter.accepts).mergeSort fun a b => !b.createdAt.before a.createdAt

/-- Replace a fix that is kept. -/
def updateFix (r : Records) (fix : Fix) : Except Fault Records :=
  if (r.fix? fix.id).isSome then .ok (r.saveFix fix) else .error (.fixNotFound fix.id)

/-- Forget a fix. -/
def deleteFix (r : Records) (id : String) : Records :=
  { r with fixes := r.fixes.filter fun f => f.id ≠ id }

/-- Add to the audit trail. -/
def append (r : Records) (a : Application) : Records :=
  { r with applications := r.applications ++ [a] }

/-- The audit trail, of one fix or as a whole. -/
def trail (r : Records) (fixId : Option String) : List Application :=
  r.applications.filter fun a => fixId.all (a.fixId = ·)

end Records

end Mend
