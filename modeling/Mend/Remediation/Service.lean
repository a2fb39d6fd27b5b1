import Mend.Config.Basic
import Mend.Remediation.Report
import Mend.Store.Basic

/-!
# Scanning, suggesting, confirming, applying, rolling back

The service ties the rules, the templates and the patches to the store. Every change of a fix's
status is a legal step, and every attempt to apply or roll back a fix leaves a line in the audit
trail, whether it worked or not. A missing record or an illegal step is found before anything is
touched.
-/

namespace Mend

/-- How a project is looked after. -/
structure Service where
  root : Path
  policy : Policy := .manual
  synthesis : SynthesisOptions := {}
  diff : Diff.Options := {}
  applier : Patch.Applier

namespace Service

/-- The service of a project with a configuration. -/
def ofConfig (c : Config) (root : Path) : Service :=
  { root
    policy := c.remediation.policy
    synthesis := c.remediation.synthesis
    diff := c.diff
    applier := c.remediation.applier root }

/-- A result that no text was cut wrongly for. -/
def uncut {α : Type} : Except Text.BadOffset α → Work α
  | .ok a => pure a
  | .error e => throw (.badOffset e.offset)

/-- The issue with an id. -/
def issue (id : String) : Work Issue := do
  match ← Store.issue? id with
  | some i => pure i
  | none => throw (.issueNotFound id)

/-- The fix with an id. -/
def fix (id : String) : Work Fix := do
  match ← Store.fix? id with
  | some f => pure f
  | none => throw (.fixNotFound id)

/-! ## Scanning -/

/-- What a scan changed. -/
structure ScanOutcome where
  report : ScanReport
  /-- The issues of the report; one that was known is as it was stored. -/
  issues : List Issue
  newIssues : Nat
  /-- How many stored issues are gone. -/
  resolved : Nat

/-- The record of a scan. How long it took is not known. -/
def ScanOutcome.toData (o : ScanOutcome) : Data :=
  .record [
    ("report", .record [("platform", .text o.report.platform.name),
      ("issues", .list (o.issues.map Issue.toData)),
      ("files_scanned", .ofNat o.report.scannedFiles.length),
      ("files_skipped", .ofNat o.report.skipped), ("cancelled", .bool o.report.cancelled),
      ("truncated", .bool o.report.truncated), ("duration_ms", .ofNat 0)]),
    ("new_issues", .ofNat o.newIssues), ("resolved", .ofNat o.resolved)]

/-- The stored issue that a finding is about; of several, the last. -/
def knownIssue? (known : List Issue) (f : Finding) : Option Issue :=
  known.reverse.find? fun i => i.toFinding.fingerprint = f.fingerprint

/-- Give a finding an id and a time. -/
def keep (f : Finding) : Work Issue := do
  let id ← Work.freshId
  let now ← Work.now
  pure { toFinding := f, id, detectedAt := now }

/-- The issues of a report, and those of them that are new. -/
def matchKnown (known : List Issue) : List Finding → Work (List Issue × List Issue)
  | [] => pure ([], [])
  | f :: fs => do
    match knownIssue? known f with
    | some i =>
      let (issues, fresh) ← matchKnown known fs
      pure (i :: issues, fresh)
    | none =>
      let i ← keep f
      let (issues, fresh) ← matchKnown known fs
      pure (i :: issues, i :: fresh)

/-- A stored issue that a complete scan would have found again if it were still there, and did
not. -/
def isStale (report : ScanReport) (o : ScanOptions) (i : Issue) : Bool :=
  (report.scannedFiles.any fun p => p.same i.file)
    && ((o.rules report.platform).any fun r => r.id == i.rule)
    && o.minSeverity.all i.severity.atLeast
    && !(report.findings.any fun f => f.fingerprint = i.toFinding.fingerprint)

/-- Scan a project and bring the store up to date: new findings are kept, and issues that a complete
scan did not find again are deleted. -/
def scan (walk : Walk) (platform : Platform) (o : ScanOptions) (switch : Switch := .still false) :
    Work ScanOutcome := do
  let structure' ← Structure.ofWalk walk platform
  let report ← uncut (Scan.project (← Work.tree) structure' o switch)
  let known ← Store.listIssues { platform := some platform }
  let (issues, fresh) ← matchKnown known report.findings
  let resolved ←
    if report.cancelled || report.truncated then pure 0
    else Store.deleteIssues ((known.filter (isStale report o)).map Issue.id)
  Store.saveIssues fresh
  pure ⟨report, issues, fresh.length, resolved⟩

/-! ## Suggesting -/

/-- Make a fix for an issue from its file as it is now, if a template fits. -/
def synthesize (s : Service) (issue : Issue) (retryOf : Option String) : Work (Option Fix) := do
  let content ← Work.readText issue.file
  match ← uncut (Candidate.forIssue s.synthesis issue.toFinding content) with
  | none => pure none
  | some c =>
    let id ← Work.freshId
    let now ← Work.now
    let fix := { c.toFix issue s.diff id now with retryOf }
    let fix ←
      if s.policy.confirms fix.confidence then do
        let fix ← Work.ofExcept (fix.transition .confirm)
        pure { fix with confirmedAt := some fix.createdAt }
      else pure fix
    Store.saveFix fix
    pure (some fix)

/-- A fix for an issue: the one that is still live, or else a new one. -/
def suggest (s : Service) (issueId : String) : Work (Option Fix) := do
  let issue ← issue issueId
  let fixes ← Store.listFixes { issueId := some issue.id }
  match fixes.find? fun f => !f.status.isTerminal with
  | some f => pure (some f)
  | none => s.synthesize issue none

/-- What came of suggesting a fix for many issues. -/
structure Suggestions where
  fixes : List Fix := []
  /-- Issues that no template fits. -/
  noTemplate : List String := []
  /-- Issues whose file could not be read, and why. -/
  errors : List (String × String) := []

/-- The record of suggestions. -/
def Suggestions.toData (s : Suggestions) : Data :=
  .record [("fixes", .list (s.fixes.map Fix.toData)),
    ("no_template", .list (s.noTemplate.map Data.text)),
    ("errors", .list (s.errors.map fun (id, message) => .list [.text id, .text message]))]

/-- Suggest a fix for each of several issues. -/
def suggestEach (s : Service) : List String → Suggestions → Work Suggestions
  | [], out => pure out
  | id :: ids, out => do
    match ← (s.suggest id).attempt with
    | .ok (some f) => s.suggestEach ids { out with fixes := out.fixes ++ [f] }
    | .ok none => s.suggestEach ids { out with noTemplate := out.noTemplate ++ [id] }
    | .error .serialization => throw .serialization
    | .error (.badOffset n) => throw (.badOffset n)
    | .error e => s.suggestEach ids { out with errors := out.errors ++ [(id, e.message)] }

/-- Suggest a fix for every stored issue that a filter lets through. -/
def suggestAll (s : Service) (filter : IssueFilter) : Work Suggestions := do
  let issues ← Store.listIssues filter
  s.suggestEach (issues.map Issue.id) {}

/-! ## Deciding -/

/-- Confirm a pending fix. -/
def confirm (fixId : String) : Work Fix := do
  let fix ← fix fixId
  let fix ← Work.ofExcept (fix.transition .confirm)
  let now ← Work.now
  let fix := { fix with confirmedAt := some now }
  Store.updateFix fix
  pure fix

/-- Reject a pending fix. -/
def reject (fixId : String) : Work Fix := do
  let fix ← fix fixId
  let fix ← Work.ofExcept (fix.transition .reject)
  Store.updateFix fix
  pure fix

/-! ## Applying -/

/-- Write down that a fix was applied. -/
def recordApplied (fix : Fix) (outcome : Patch.Outcome) : Work Fix := do
  let fix ← Work.ofExcept (fix.transition .applySucceeded)
  let now ← Work.now
  let fix := { fix with
    appliedAt := some now
    backupPath := some outcome.backup.path
    placement := some outcome.placement
    confidence := outcome.confidence }
  Store.append {
    fixId := fix.id
    action := .apply
    success := true
    placement := some outcome.placement
    backupPath := some outcome.backup.path
    appliedAt := now }
  Store.updateFix fix
  pure fix

/-- Write down that a fix could not be applied, and why. -/
def recordFailed (fix : Fix) (fault : Fault) : Work Unit := do
  let fix ← Work.ofExcept (fix.transition .applyFailed)
  let now ← Work.now
  Store.append {
    fixId := fix.id
    action := .apply
    success := false
    error := some fault.message
    appliedAt := now }
  Store.updateFix fix

/-- Apply a confirmed fix to its file. A fix that cannot be applied has failed. -/
def apply (s : Service) (fixId : String) : Work Fix := do
  let fix ← fix fixId
  let _ ← Work.ofExcept (fix.ensure .applySucceeded)
  match ← (s.applier.apply fix).attempt with
  | .ok outcome => recordApplied fix outcome
  | .error fault =>
    recordFailed fix fault
    throw fault

/-! ## Rolling back -/

/-- Order of moments that may be missing; a missing one comes first. -/
def laterThan : Option Time → Option Time → Bool
  | some a, some b => b.before a
  | some _, none => true
  | none, _ => false

/-- Another fix was applied to the same file after this one. -/
def hasLaterFix (fix : Fix) : Work Bool := do
  let applied ← Store.listFixes { status := some .applied, file := some fix.file }
  pure (applied.any fun f => f.id ≠ fix.id && laterThan f.appliedAt fix.appliedAt)

/-- Put a file back as it was before a fix was applied. Fixes of one file are rolled back newest
first. -/
def rollback (fixId : String) : Work Fix := do
  let fix ← fix fixId
  let _ ← Work.ofExcept (fix.ensure .rollBack)
  match fix.backupPath with
  | none => throw (.invalidState fix.id fix.status "roll back without a backup")
  | some backup =>
    if ← hasLaterFix fix then
      throw (.invalidState fix.id fix.status "roll back before later fixes to the same file")
    let result ← (Patch.Applier.rollback fix.file backup).attempt
    let now ← Work.now
    Store.append {
      fixId := fix.id
      action := .rollback
      success := result.isOk
      placement := fix.placement
      backupPath := some backup
      error := match result with
        | .ok _ => none
        | .error e => some e.message
      appliedAt := now }
    Work.ofExcept result
    let fix ← Work.ofExcept (fix.transition .rollBack)
    let fix := { fix with rolledBackAt := some now }
    Store.updateFix fix
    pure fix

/-- A new fix for the issue of a failed one. The failed fix stays as it is. -/
def retry (s : Service) (fixId : String) : Work (Option Fix) := do
  let failed ← fix fixId
  if failed.status ≠ .failed then throw (.invalidState failed.id failed.status "retry")
  let issue ← issue failed.issueId
  s.synthesize issue (some failed.id)

/-! ## Looking -/

/-- Fixes, each with its issue if that is still there. -/
def fixesWithIssues (filter : FixFilter) : Work (List (Fix × Option Issue)) := do
  let r ← Store.current
  pure ((r.listFixes filter).map fun f => (f, r.issue? f.issueId))

/-- The issues of at least a severity that no live fix is about. -/
def unaddressed (severity : Severity) : Work (List Issue) := do
  let fixes ← Store.listFixes {}
  let covered := (fixes.filter fun f => !f.status.isTerminal).map Fix.issueId
  let issues ← Store.listIssues { minSeverity := some severity }
  pure (issues.filter fun i => !covered.contains i.id)

end Service

end Mend
