import Mend.Rule.Context

/-!
# Rules

A rule is a description and a function from one file to the places it objects to (`Detection`).
Rules never read anything but the file. A rule may fail to place what it found
(`Text.BadOffset`): the four rules on null assertions take the operator to stand one byte after the
start of their match, which is inside the character where that one has more than one byte.
-/

namespace Mend

/-- A place that a rule objects to. -/
structure Detection where
  offset : Nat
  severity : Severity
  title : String
  suggestion : String
  deriving Repr, DecidableEq

/-- A detection rule. -/
structure Rule where
  /-- Family and name. -/
  id : String
  title : String
  /-- What the rule finds. -/
  description : String
  platforms : List Platform
  category : Category
  /-- The kind of every issue that the rule reports. -/
  kind : IssueKind
  /-- The languages that the rule is for; none means all of them. -/
  languages : Option (List Language) := none
  /-- The rule guesses, and runs only on request. -/
  heuristic : Bool := false
  detect : Context → Except Text.BadOffset (List Detection)

namespace Rule

/-- The rule is for the file's platform and language. -/
def appliesTo (r : Rule) (ctx : Context) : Bool :=
  r.platforms.contains ctx.platform && r.languages.all (·.contains ctx.language)

/-- What the rule says about a place it objects to. The column is taken as it is, not to 32 bits as
in `LineIndex.position`: texts are taken to be shorter than 4 GiB. -/
def finding (r : Rule) (ctx : Context) (d : Detection) : Finding :=
  let line := ctx.index.lineOf d.offset
  { rule := r.id
    kind := r.kind
    severity := d.severity
    platform := ctx.platform
    file := ctx.path
    line
    column := some (ctx.index.columnOf d.offset)
    evidence := String.ofList (Text.trim (ctx.lineText line))
    title := d.title
    description := r.description
    suggestion := some d.suggestion
    heuristic := r.heuristic }

/-- Everything the rule says about a file, in the order of detection. -/
def findings (r : Rule) (ctx : Context) : Except Text.BadOffset (List Finding) :=
  (r.detect ctx).map fun ds => ds.map (r.finding ctx)

end Rule

/-- Of offsets in order, each that lies on another line than the one taken before it. -/
def oncePerLine (index : Text.LineIndex) : Nat → List Nat → List Nat
  | _, [] => []
  | last, at' :: rest =>
    let line := index.lineOf at'
    if line == last then oncePerLine index last rest else at' :: oncePerLine index line rest

/-- Detections of an operator one byte after the start of each match: the severity is low where the
value before the operator was tested for null in the three lines before. -/
def assertionDetections (ctx : Context) (matches' : List Match) (title suggestion : String) :
    Except Text.BadOffset (List Detection) :=
  matches'.mapM fun m => do
    let bang := m.start + 1
    let receiver ← receiverBefore ctx.masked bang
    let guarded := ctx.guardedNearby (ctx.index.lineOf bang) receiver 3
    pure ⟨bang, if guarded then .low else .medium, title, suggestion⟩

end Mend
