import Mend.Data.Json
import Mend.Text.Lines
import Mend.Workspace

/-!
# Keeping records

A store keeps its records in memory; a store with a home also writes them to a directory. Issues and
fixes are written as a whole after every change, and each line of the audit trail is added at the
end of its file. A change is made in memory first: if it cannot be written, it stays there.
-/

namespace Mend.Store

/-- The file of the issues. -/
def issuesFile : String := "issues.json"

/-- The file of the fixes. -/
def fixesFile : String := "fixes.json"

/-- The file of the audit trail. -/
def applicationsFile : String := "applications.jsonl"

/-- The file that says that a store is in use. -/
def lockFile : String := "store.lock"

/-! ## Opening -/

/-- The records of a file; a missing or empty file has none. -/
def load {α : Type} (p : Path) (read? : Data → Option α) : Work (List α) := do
  match (← Work.tree).read p with
  | .error .notFound => pure []
  | .error e => throw (.io p e)
  | .ok bytes =>
    if bytes.isEmpty then pure []
    else
      match (Json.readBytes? bytes).bind (Data.toList? read?) with
      | some records => pure records
      | none => throw .serialization

/-- The lines of the audit trail that can be read. -/
def readTrail (text : String) : List Application :=
  (Text.linesOf text).filterMap fun line =>
    if Text.isBlankLine line then none else (Json.read? line).bind Application.ofData?

/-- The audit trail of a file; a missing file has none. -/
def loadTrail (p : Path) : Work (List Application) := do
  match (← Work.tree).readText p with
  | .error .notFound => pure []
  | .error e => throw (.io p e)
  | .ok text => pure (readTrail text)

/-- Mark a directory as in use. -/
def lock (dir : Path) : Work Unit := do
  let p := dir.join lockFile
  Work.changing p fun t => t.append p ByteArray.empty

/-- Open the store in a directory, which is made if need be. -/
def openAt (dir : Path) : Work Unit := do
  Work.makeDirectories dir
  lock dir
  let issues ← load (dir.join issuesFile) Issue.ofData?
  let fixes ← load (dir.join fixesFile) Fix.ofData?
  let applications ← loadTrail (dir.join applicationsFile)
  modify fun w => { w with store := ⟨some dir, ⟨issues, fixes, applications⟩⟩ }

/-- Start with an empty store in memory. -/
def openMemory : Work Unit := modify fun w => { w with store := {} }

/-! ## Writing -/

/-- The records in use. -/
def current : Work Records := do
  pure (← get).store.records

/-- Change the records in memory. -/
def setRecords (r : Records) : Work Unit :=
  modify fun w => { w with store := { w.store with records := r } }

/-- Write a list of records to a file of the home directory. -/
def persist (file : String) (items : List Data) : Work Unit := do
  match (← get).store.home with
  | none => pure ()
  | some dir => Work.write (dir.join file) (Json.pretty (.list items)).toUTF8

/-- Write the issues. -/
def persistIssues : Work Unit := do
  persist issuesFile ((← current).issues.map Issue.toData)

/-- Write the fixes. -/
def persistFixes : Work Unit := do
  persist fixesFile ((← current).fixes.map Fix.toData)

/-! ## Issues -/

/-- Keep issues; one with a known id takes the place of the old one. -/
def saveIssues (issues : List Issue) : Work Unit := do
  setRecords ((← current).saveIssues issues)
  persistIssues

/-- The issue with an id. -/
def issue? (id : String) : Work (Option Issue) := do
  pure ((← current).issue? id)

/-- Issues in the order of listing. -/
def listIssues (filter : IssueFilter) : Work (List Issue) := do
  pure ((← current).listIssues filter)

/-- Forget issues; gives how many there were. To forget none writes nothing. -/
def deleteIssues (ids : List String) : Work Nat := do
  if ids.isEmpty then pure 0
  else
    let r ← current
    setRecords (r.deleteIssues ids)
    persistIssues
    pure (r.countIssues ids)

/-- Forget an issue; gives whether there was exactly one. -/
def deleteIssue (id : String) : Work Bool := do
  pure ((← deleteIssues [id]) == 1)

/-! ## Fixes -/

/-- Keep a fix; one with a known id takes the place of the old one. -/
def saveFix (fix : Fix) : Work Unit := do
  setRecords ((← current).saveFix fix)
  persistFixes

/-- The fix with an id. -/
def fix? (id : String) : Work (Option Fix) := do
  pure ((← current).fix? id)

/-- Fixes in the order in which they were made. -/
def listFixes (filter : FixFilter) : Work (List Fix) := do
  pure ((← current).listFixes filter)

/-- Replace a fix that is kept. -/
def updateFix (fix : Fix) : Work Unit := do
  setRecords (← Work.ofExcept ((← current).updateFix fix))
  persistFixes

/-- Forget a fix; gives whether there was one. -/
def deleteFix (id : String) : Work Bool := do
  let r ← current
  setRecords (r.deleteFix id)
  persistFixes
  pure (r.fix? id).isSome

/-! ## The audit trail -/

/-- Add to the audit trail; on disk first. -/
def append (a : Application) : Work Unit := do
  match (← get).store.home with
  | none => pure ()
  | some dir =>
    let p := dir.join applicationsFile
    Work.changing p fun t => t.append p (Json.compact a.toData ++ "\n").toUTF8
  setRecords ((← current).append a)

/-- The audit trail, of one fix or as a whole. -/
def trail (fixId : Option String) : Work (List Application) := do
  pure ((← current).trail fixId)

/-- Write everything once more. The store stays in use. -/
def close : Work Unit := do
  persistIssues
  persistFixes

end Mend.Store
