import Mend.Remediation.Summary

/-!
# Answers as text

The lines that commands print about issues, fixes, scans and counts. Files are shown as seen from
the project's root, and ids by their first characters.
-/

namespace Mend.CommandLine

/-- The first eight bytes of an id, where a character ends there. -/
def shortId (id : String) : String :=
  match Text.splitAt? 8 id.toList with
  | some (front, _) => String.ofList front
  | none => id

/-- A file as seen from the project's root. -/
def shownFile (root file : Path) : String := (Path.relativeTo root file).text

/-- A file and a line. -/
def shownPlace (root file : Path) (line : Nat) : String := s!"{shownFile root file}:{line}"

/-- The status of a fix, in a column. -/
def statusBadge (s : FixStatus) : String := Text.padEnd 11 s.name

/-- The severity of an issue, in a column. -/
def severityBadge (s : Severity) : String := Text.padEnd 8 (Text.asciiUpper s.name)

/-! ## Issues -/

/-- An issue in a list. -/
def issueLines (root : Path) (i : Issue) : List String :=
  ["  " ++ shortId i.id ++ " " ++ severityBadge i.severity ++ " " ++ i.title
     ++ (if i.heuristic then " (heuristic)" else ""),
   "           " ++ shownPlace root i.file i.line ++ "  " ++ i.rule]

/-- A list of issues. -/
def issueList (root : Path) (issues : List Issue) : List String :=
  if issues.isEmpty then ["No issues stored. Run `appmedic scan` first, or loosen the filter."]
  else
    [s!"{issues.length} issues", ""] ++ issues.flatMap (issueLines root)
      ++ ["", "Suggest a fix with appmedic suggest <ISSUE>"]

/-- Issues with the worst first; issues that are as bad stay in their order. -/
def worstFirst (issues : List Issue) : List Issue :=
  issues.mergeSort fun a b => a.severity.atLeast b.severity

/-! ## Fixes -/

/-- A fix in a list. -/
def fixLines (root : Path) (f : Fix) (orphaned : Bool) : List String :=
  ["  " ++ shortId f.id ++ " " ++ statusBadge f.status ++ " "
     ++ Text.padStart 3 (toString f.confidence) ++ "%  " ++ f.title
     ++ (if orphaned then " (issue gone)" else ""),
   "                          " ++ shownPlace root f.file f.line ++ "  " ++ f.template]

/-- A list of fixes, each with its issue. -/
def fixList (root : Path) (fixes : List (Fix × Option Issue)) : List String :=
  if fixes.isEmpty then ["No fixes. Run appmedic suggest --all to create some."]
  else
    [s!"{fixes.length} fixes", ""]
      ++ fixes.flatMap fun (f, issue) => fixLines root f issue.isNone

/-- Another way to mend the issue. -/
def alternativeLines (a : Alternative) : List String :=
  [s!"  - {a.title} ({a.confidence}%)", "    " ++ a.tradeoff]
    ++ match a.suggestedCode with
      | some code => (Text.linesOf code).map fun l => "      " ++ l
      | none => []

/-- Everything about a fix. -/
def fixDetail (root : Path) (f : Fix) (issue : Option Issue) : List String :=
  ["", "Fix " ++ f.id ++ "  " ++ statusBadge f.status, "  Title: " ++ f.title,
   "  File: " ++ shownPlace root f.file f.line,
   s!"  Confidence: {f.confidence}% ({f.template})"]
  ++ (match f.placement with
    | some p => ["  Placed: " ++ p.name]
    | none => [])
  ++ (match f.retryOf with
    | some id => ["  Retry of: " ++ shortId id]
    | none => [])
  ++ (if f.description.isEmpty then [] else ["", f.description])
  ++ ["", "Changes:"] ++ Text.linesOf f.diff
  ++ (if f.alternatives.isEmpty then []
    else ["", "Alternatives:"] ++ f.alternatives.flatMap alternativeLines)
  ++ match issue with
    | some i => ["", "Issue:"] ++ issueLines root i
    | none => ["", "! The issue this fix addresses is no longer detected."]

/-- What to do with a new fix. -/
def approvalHint (f : Fix) : List String :=
  if f.status = .pending then ["", "Approve with appmedic confirm " ++ shortId f.id] else []

/-- What came of suggesting fixes for every issue. -/
def suggestionLines (root : Path) (s : Service.Suggestions) : List String :=
  [s!"✓ {s.fixes.length} fixes ready, {s.noTemplate.length} issues without a template"]
  ++ (s.errors.map fun (id, message) => "  ✗ " ++ shortId id ++ ": " ++ message)
  ++ (if s.fixes.isEmpty then []
    else "" :: s.fixes.flatMap fun f => fixLines root f false)

/-- A step that a fix took. -/
def stepLines (root : Path) (verb : String) (f : Fix) : List String :=
  [s!"✓ {verb} {shortId f.id} ({shownFile root f.file})"]
  ++ if f.placement = some .manualComment ∧ f.status = .applied then
      ["  ! Could not place the change; a manual-action comment was appended to the file"]
    else []

/-- The record of fixes with their issues. -/
def fixesData (fixes : List (Fix × Option Issue)) : Data :=
  .list (fixes.map fun (f, issue) =>
    .record [("fix", f.toData), ("issue", match issue with
      | some i => i.toData
      | none => .null)])

/-! ## Scans and counts -/

/-- What a scan found, and the fixes that were suggested after it. -/
def scanLines (o : Service.ScanOutcome) (suggested : Option Service.Suggestions) : List String :=
  let n := IssueCounts.of (o.issues.map Issue.toFinding)
  let scanned := o.report.scannedFiles.length
  [s!"✓ Scanned {scanned} files in 0ms ({o.report.platform.name})"]
  ++ (if 0 < o.report.skipped then [s!"  {o.report.skipped} files could not be read"] else [])
  ++ (if o.report.cancelled then ["  Scan was cancelled; results are partial"] else [])
  ++ (if o.report.truncated then ["  Issue limit reached; results are truncated"] else [])
  ++ ["",
    s!"  {n.total} issues: {n.critical} critical, {n.high} high, {n.medium} medium, {n.low} low, "
      ++ s!"{n.info} info",
    s!"  {o.newIssues} new, {o.resolved} resolved since the last scan"]
  ++ (if 0 < n.heuristic then
      [s!"  {n.heuristic} from the heuristic tier (expect false positives)"] else [])
  ++ match suggested with
    | some s => ["",
        s!"  {s.fixes.length} fixes suggested ({s.noTemplate.length} issues have no template)", "",
        "Next: appmedic fixes"]
    | none =>
      if 0 < n.total then ["", "Next: appmedic issues or appmedic suggest --all"] else []

/-- The record of a scan. -/
def scanData (o : Service.ScanOutcome) (suggested : Option Service.Suggestions) : Data :=
  Data.sorted (.record [("scan", o.toData), ("suggested", match suggested with
    | some s => s.toData
    | none => .null)])

/-- A count with what it counts. -/
def countLine (name : String) (n : Nat) : String :=
  "      " ++ Text.padEnd 20 name ++ " " ++ toString n

/-- Counts of everything that is kept. -/
def statusLines (root store : Path) (platform : Option Platform) (s : Summary) : List String :=
  let n := s.issues
  ["", "appmedic status", "", "  Project: " ++ root.text, "  Store:   " ++ store.text,
   "  Platform: " ++ (match platform with
    | some p => p.name
    | none => "unknown"), ""]
  ++ (if n.total = 0 then ["  [--] No issues stored. Run appmedic scan"]
    else
      [s!"  [OK] {n.total} issues ({n.critical} critical, {n.high} high, {n.medium} medium, "
        ++ s!"{n.low} low)"]
      ++ s.issuesByKind.map fun (k, n) => countLine k.name n)
  ++ [""]
  ++ (if s.fixes = 0 then ["  [--] No fixes yet"]
    else
      [s!"  [OK] {s.fixes} fixes"]
      ++ (s.fixesByStatus.map fun (k, n) => countLine k.name n)
      ++ if 0 < s.orphanedFixes then
          [s!"      {s.orphanedFixes} whose issue is no longer detected"] else [])
  ++ (if 0 < s.applications then
      ["", s!"  {s.applications} apply/rollback attempts, {s.failedApplications} failed, "
        ++ s!"{s.rollbacks} rollbacks"] else [])
  ++ [""]

end Mend.CommandLine
