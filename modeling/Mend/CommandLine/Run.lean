import Mend.CommandLine.Command
import Mend.CommandLine.Console
import Mend.CommandLine.Listing
import Mend.Store.Home

/-!
# Running commands

A command opens the project and its store, does its work, and writes the store once more. The answer
is text or a record in JSON. `Invocation.run` is the whole program but for reading the files and
writing them back.
-/

namespace Mend.CommandLine

/-- An open project. -/
structure Session where
  root : Path
  store : Path
  config : Config
  format : Format

namespace Session

/-- The service of the project. -/
def service (s : Session) : Service := Service.ofConfig s.config s.root

/-- Print an answer in the wanted form. -/
def answer (s : Session) (data : Data) (lines : List String) : Console Unit :=
  match s.format with
  | .json => Console.say [Json.pretty data]
  | .text => Console.say lines

end Session

/-- The directory to work in, without links. -/
def projectRoot (path : Path) : Console Path := do
  match (← getThe Workspace).tree.canonical path with
  | .error e => throw (.because ["Path does not exist: " ++ path.text, e.message])
  | .ok root =>
    if (← getThe Workspace).tree.isDirectory root then pure root
    else Console.fail ("Path is not a directory: " ++ root.text)

/-- Open a project and its store. Without a wish of its own, the store is in the cache directory. -/
def openSession (i : Invocation) (cache : Path) : Console Session := do
  let root ← projectRoot i.path
  let tree := (← getThe Workspace).tree
  let config := Config.load tree root
  let store := i.store.getD (Store.homeFor tree cache root)
  Console.within ("Failed to open store at " ++ store.text) (Console.work (Store.openAt store))
  pure { root, store, config, format := i.format }

/-! ## Ids -/

/-- The one id with a start. A whole id is meant even where others start with it. -/
def resolveId (entity start : String) (ids : List String) : Console String := do
  let hits := ids.filter fun id => start.toList.isPrefixOf id.toList
  if hits.contains start then pure start
  else
    match hits with
    | [] => Console.fail s!"No {entity} matches '{start}'"
    | [id] => pure id
    | _ =>
      Console.fail
        s!"'{start}' is ambiguous: {hits.length} {entity}s start with it. Use more characters."

/-- The fix that is meant. -/
def resolveFix (start : String) : Console String := do
  resolveId "fix" start ((← Console.work (Store.listFixes {})).map Fix.id)

/-- The issue that is meant. -/
def resolveIssue (start : String) : Console String := do
  resolveId "issue" start ((← Console.work (Store.listIssues {})).map Issue.id)

/-! ## Setting up -/

/-- Lines for a list of ignored files that keep backups out of it. -/
def ignoreEntry : String := "\n# appmedic backups\n.appmedic/\n"

/-- Keep backups out of version control, where there is a list of ignored files. -/
def ignoreBackups (root : Path) : Console Unit := do
  let p := root.join ".gitignore"
  let tree := (← getThe Workspace).tree
  if tree.contains p then
    let content := match tree.readText p with
      | .ok s => s
      | .error _ => ""
    if !Text.contains content ".appmedic" then
      match tree.append p ignoreEntry.toUTF8 with
      | .ok t => modifyThe Workspace fun w => { w with tree := t }
      | .error e => throw (.because ["Failed to open " ++ p.text, e.message])
      Console.say ["✓ Added .appmedic/ to .gitignore"]

/-- Write a configuration file to start with. -/
def setUp (path : Path) (force : Bool) : Console Unit := do
  let root ← projectRoot path
  let file := root.join Config.tomlFile
  let tree := (← getThe Workspace).tree
  if tree.contains file && !force then
    Console.say ["✓ Already initialized: " ++ file.text ++ " (use --force to overwrite)"]
  else
    let platform := Markers.platform? tree root
    match tree.overwrite file (Config.starterText platform).toUTF8 with
    | .ok t => modifyThe Workspace fun w => { w with tree := t }
    | .error e => throw (.because ["Failed to write " ++ file.text, e.message])
    Console.say ["✓ Created " ++ file.text,
      match platform with
      | some p => "  Detected platform: " ++ p.name
      | none => "  ! Could not detect the platform; set `platform` in " ++ Config.tomlFile]
    ignoreBackups root
    Console.say ["", "Next steps:", "  appmedic scan Detect issues",
      "  appmedic suggest --all Propose fixes", "  appmedic fixes Review them"]

/-! ## Scanning and suggesting -/

/-- The options of a scan: as configured, but for what is asked. -/
def ScanRequest.options (r : ScanRequest) (c : ScanConfig) : ScanOptions :=
  let o := c.options
  { o with
    heuristics := o.heuristics || r.heuristics
    includeTests := o.includeTests || r.includeTests
    categories := if r.categories.isEmpty then o.categories else some r.categories
    minSeverity := r.severity.or o.minSeverity }

namespace Session

/-- Scan the project, and suggest fixes if that is asked. -/
def scan (s : Session) (r : ScanRequest) : Console Unit := do
  match r.platform.or (s.config.platformFor (← getThe Workspace).tree s.root) with
  | none =>
    Console.fail ("Could not tell which platform " ++ s.root.text
      ++ " targets. Pass --platform or set `platform` in appmedic.toml")
  | some platform =>
    let outcome ← Console.within "Scan failed" <| Console.work <|
      Service.scan (s.config.scan.walk s.root platform) platform (r.options s.config.scan)
    let suggested ←
      if r.suggest then some <$> Console.work (s.service.suggestAll {}) else pure none
    s.answer (scanData outcome suggested) (scanLines outcome suggested)

/-- List issues, the worst first. -/
def listIssues (s : Session) (filter : IssueFilter) (top : Option Nat) : Console Unit := do
  let issues := worstFirst (← Console.work (Store.listIssues filter))
  let issues := match top with
    | some n => issues.take n
    | none => issues
  s.answer (.list (issues.map Issue.toData)) (issueList s.root issues)

/-- The record of a fix, or of none. -/
def fixData : Option Fix → Data
  | some f => f.toData
  | none => .null

/-- Everything about a fix as text. -/
def detail (s : Session) (f : Fix) : Console (List String) := do
  pure (fixDetail s.root f (← Console.work (Store.issue? f.issueId)))

/-- Suggest a fix for one issue. -/
def suggest (s : Session) (start : String) : Console Unit := do
  let id ← resolveIssue start
  let fix ← Console.within ("Failed to synthesize a fix for issue " ++ shortId id)
    (Console.work (s.service.suggest id))
  let lines ← match fix with
    | some f => do pure ((← s.detail f) ++ approvalHint f)
    | none => pure ["! No fix template applies to this issue; it needs a manual change."]
  s.answer (fixData fix) lines

/-- Suggest a fix for every issue. -/
def suggestAll (s : Session) : Console Unit := do
  let all ← Console.work (s.service.suggestAll {})
  s.answer all.toData (suggestionLines s.root all)

/-! ## Fixes -/

/-- List fixes. -/
def listFixes (s : Session) (filter : FixFilter) (orphaned : Bool) : Console Unit := do
  let fixes ← Console.work (Service.fixesWithIssues filter)
  let fixes := if orphaned then fixes.filter fun f => f.2.isNone else fixes
  s.answer (fixesData fixes) (fixList s.root fixes)

/-- Show a fix. -/
def display (s : Session) (start : String) : Console Unit := do
  let id ← resolveFix start
  let fix ← Console.work (Service.fix id)
  s.answer fix.toData (← s.detail fix)

/-- Take a step with each fix in turn. Those that cannot take it are named, and do not stop the
others. -/
def stepEach (s : Session) (verb : String) (step : String → Work Fix) :
    List String → Console (List Fix)
  | [] => pure []
  | start :: rest => do
    match ← (do Console.work (step (← resolveFix start)) : Console Fix).attempt with
    | .ok f =>
      if s.format = .text then Console.say (stepLines s.root verb f)
      let done ← s.stepEach verb step rest
      pure (f :: done)
    | .error (.badOffset n) => throw (.badOffset n)
    | .error e =>
      Console.complain ("✗ " ++ start ++ ": " ++ e.message)
      s.stepEach verb step rest

/-- Take a step with several fixes; it fails if one of them cannot take it. -/
def stepAll (s : Session) (verb : String) (step : String → Work Fix) (starts : List String) :
    Console Unit := do
  let done ← s.stepEach verb step starts
  if s.format = .json then Console.say [Json.pretty (.list (done.map Fix.toData))]
  let failures := starts.length - done.length
  if 0 < failures then
    Console.fail s!"{failures} of {starts.length} fixes could not be {Text.asciiLower verb}"

/-- Apply fixes, and every confirmed one if that is asked. -/
def apply (s : Session) (starts : List String) (allConfirmed : Bool) : Console Unit := do
  let confirmed ←
    if allConfirmed then Console.work (Store.listFixes { status := some .confirmed }) else pure []
  let targets := starts ++ confirmed.map Fix.id
  if targets.isEmpty then Console.say ["No confirmed fixes to apply."]
  else s.stepAll "Applied" s.service.apply targets

/-- Make a new fix in place of a failed one. -/
def retry (s : Session) (start : String) : Console Unit := do
  let id ← resolveFix start
  let fix ← Console.work (s.service.retry id)
  let lines ← match fix with
    | some f => s.detail f
    | none => pure ["! The current file no longer matches any fix template for this issue."]
  s.answer (fixData fix) lines

/-- Show the counts of everything that is kept. -/
def status (s : Session) : Console Unit := do
  let summary := Summary.of (← Console.work Store.current)
  let platform := s.config.platformFor (← getThe Workspace).tree s.root
  s.answer summary.toData (statusLines s.root s.store platform summary)

/-- Do what is asked, once the ids in its options are known. -/
def perform (s : Session) (issue : Option String) : Command → Console Unit
  | .init _ => pure ()
  | .scan r => s.scan r
  | .issues filter top => s.listIssues filter top
  | .suggest start => s.suggest start
  | .suggestAll => s.suggestAll
  | .fixes status _ orphaned => s.listFixes { status, issueId := issue } orphaned
  | .display start => s.display start
  | .confirm starts => s.stepAll "Confirmed" Service.confirm starts
  | .reject starts => s.stepAll "Rejected" Service.reject starts
  | .apply starts allConfirmed => s.apply starts allConfirmed
  | .rollback start => s.stepAll "Rolled back" Service.rollback [start]
  | .retry start => s.retry start
  | .status => s.status

end Session

/-- The issue that a command's options name. -/
def namedIssue : Command → Console (Option String)
  | .fixes _ (some start) _ => some <$> resolveIssue start
  | _ => pure none

/-- Run a command. The store is written even after a failure, and what goes wrong then comes
first. -/
def Invocation.body (i : Invocation) (cache : Path) : Console Unit := do
  match i.command with
  | .init force => setUp i.path force
  | command =>
    let s ← openSession i cache
    let issue ← namedIssue command
    let result ← (s.perform issue command).attempt
    match result with
    | .error (.badOffset n) => throw (.badOffset n)
    | _ => pure ()
    Console.within "Failed to flush the store" (Console.work Store.close)
    match result with
    | .ok () => pure ()
    | .error e => throw e

/-- What a command came to. -/
structure Reply where
  printed : Printed
  failure : Option Failure

/-- Run a command: its reply, and the workspace after it. -/
def Invocation.run (i : Invocation) (cache : Path) (w : Workspace) : Reply × Workspace :=
  let ((result, printed), w) := ((i.body cache).run.run {}).run w
  (⟨printed, match result with
    | .ok _ => none
    | .error e => some e⟩, w)

end Mend.CommandLine
