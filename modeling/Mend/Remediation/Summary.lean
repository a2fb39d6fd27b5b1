import Mend.Remediation.Service

/-!
# Counts of what is kept
-/

namespace Mend

/-- Counts of issues, fixes and attempts. -/
structure Summary where
  issues : IssueCounts
  /-- The kinds that occur, in their order, each with its count. -/
  issuesByKind : List (IssueKind × Nat)
  /-- The statuses that occur, in alphabetical order, each with its count. -/
  fixesByStatus : List (FixStatus × Nat)
  fixes : Nat
  /-- Fixes whose issue is gone. -/
  orphanedFixes : Nat
  applications : Nat
  failedApplications : Nat
  rollbacks : Nat
  deriving Repr, DecidableEq

namespace Summary

/-- Each value of a list that occurs, with its count. -/
def counts {α : Type} [DecidableEq α] (values occurring : List α) : List (α × Nat) :=
  values.filterMap fun v =>
    let n := occurring.count v
    if n = 0 then none else some (v, n)

/-- The statuses in alphabetical order of their names. -/
def statuses : List FixStatus := FixStatus.all.mergeSort fun a b => a.name ≤ b.name

/-- The counts of records. -/
def of (r : Records) : Summary :=
  let issues := r.listIssues {}
  { issues := IssueCounts.of (issues.map Issue.toFinding)
    issuesByKind := counts IssueKind.all (issues.map fun i => i.kind)
    fixesByStatus := counts statuses (r.fixes.map Fix.status)
    fixes := r.fixes.length
    orphanedFixes := r.fixes.countP fun f => (r.issue? f.issueId).isNone
    applications := r.applications.length
    failedApplications := r.applications.countP fun a => !a.success
    rollbacks := r.applications.countP fun a => a.success && a.action = .rollback }

/-- The record of the counts. -/
def toData (s : Summary) : Data :=
  .record [("issues", s.issues.toData),
    ("issues_by_kind", .record (s.issuesByKind.map fun (k, n) => (k.name, .ofNat n))),
    ("fixes_by_status", .record (s.fixesByStatus.map fun (k, n) => (k.name, .ofNat n))),
    ("fixes", .ofNat s.fixes), ("orphaned_fixes", .ofNat s.orphanedFixes),
    ("applications", .ofNat s.applications), ("failed_applications", .ofNat s.failedApplications),
    ("rollbacks", .ofNat s.rollbacks)]

end Summary

end Mend
