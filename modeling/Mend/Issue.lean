import Mend.Category
import Mend.Path
import Mend.Platform
import Mend.Time

/-!
# Issues

A finding is what a rule says about one place of one file. An issue is a finding that was given an
id and a time, so that fixes can point at it. Two findings are the same detection when their
fingerprints agree: rule, kind, file, line and column.
-/

namespace Mend

/-- What a rule says about one place. -/
structure Finding where
  kind : IssueKind
  severity : Severity
  /-- The id of the rule. -/
  rule : String
  platform : Platform
  file : Path
  line : Nat
  column : Option Nat
  /-- The line of source, without the blanks around it. -/
  evidence : String
  title : String
  description : String
  suggestion : Option String := none
  /-- The rule guesses. -/
  heuristic : Bool := false
  deriving Repr, DecidableEq

/-- A finding that is kept. -/
structure Issue extends Finding where
  id : String
  detectedAt : Time
  deriving Repr, DecidableEq

namespace Finding

/-- What makes two findings the same detection. -/
structure Fingerprint where
  rule : String
  kind : IssueKind
  file : List Path.Part
  line : Nat
  column : Option Nat
  deriving Repr, DecidableEq

/-- The fingerprint of a finding. -/
def fingerprint (f : Finding) : Fingerprint := ⟨f.rule, f.kind, f.file.parts, f.line, f.column⟩

/-- Order of columns; no column comes first. -/
def compareColumns : Option Nat → Option Nat → Ordering
  | none, none => .eq
  | none, some _ => .lt
  | some _, none => .gt
  | some a, some b => Ord.compare a b

/-- The order in which findings are listed: by file, line, column and rule. -/
def compare (a b : Finding) : Ordering :=
  (a.file.compare b.file).then <| (Ord.compare a.line b.line).then <|
    (compareColumns a.column b.column).then <|
      if a.rule < b.rule then .lt else if a.rule == b.rule then .eq else .gt

/-- `a` may stand before `b`. -/
def listedBefore (a b : Finding) : Bool := (a.compare b) != .gt

/-- The fields that a finding has in every report. -/
def fields (f : Finding) : List (String × Data) :=
  [("kind", .text f.kind.name), ("severity", .text f.severity.name), ("rule", .text f.rule),
   ("platform", .text f.platform.name), ("file", .text f.file.text), ("line", .ofNat f.line),
   ("column", .ofNat? f.column), ("evidence", .text f.evidence), ("title", .text f.title),
   ("description", .text f.description), ("suggestion", .ofText? f.suggestion),
   ("heuristic", .bool f.heuristic)]

end Finding

namespace Issue

/-- The record of an issue. -/
def toData (i : Issue) : Data :=
  .record ([("id", .text i.id)] ++ i.toFinding.fields
    ++ [("detected_at", .text i.detectedAt.text)])

/-- The names of a record's fields, in order. -/
def fieldNames : List String :=
  ["id", "kind", "severity", "rule", "platform", "file", "line", "column", "evidence", "title",
   "description", "suggestion", "heuristic", "detected_at"]

/-- A time of a record. -/
def timeOf? (d : Data) : Option Time := d.toText?.bind Time.read?

/-- A path of a record. -/
def pathOf? (d : Data) : Option Path := d.toText?.map Path.mk

/-- Read the record of an issue. -/
def ofData? (d : Data) : Option Issue := do
  let f ← Fields.of? .json fieldNames d
  pure {
    id := ← f.required "id" Data.toText?
    kind := ← f.required "kind" IssueKind.ofData?
    severity := ← f.required "severity" (Severity.ofData? .json)
    rule := ← f.required "rule" Data.toText?
    platform := ← f.required "platform" (Platform.ofData? .json)
    file := ← f.required "file" pathOf?
    line := ← f.required "line" (Data.toNat? Data.lineLimit)
    column := ← f.optional "column" (Data.toNat? Data.lineLimit)
    evidence := ← f.required "evidence" Data.toText?
    title := ← f.required "title" Data.toText?
    description := ← f.required "description" Data.toText?
    suggestion := ← f.optional "suggestion" Data.toText?
    heuristic := ← f.withDefault "heuristic" Data.toBool? false
    detectedAt := ← f.required "detected_at" timeOf? }

end Issue

/-- How many issues there are of each severity. -/
structure IssueCounts where
  critical : Nat := 0
  high : Nat := 0
  medium : Nat := 0
  low : Nat := 0
  info : Nat := 0
  heuristic : Nat := 0
  total : Nat := 0
  deriving Repr, DecidableEq

namespace IssueCounts

/-- Count a list of findings. -/
def of (findings : List Finding) : IssueCounts :=
  let count (s : Severity) := findings.countP fun f => f.severity = s
  { critical := count .critical
    high := count .high
    medium := count .medium
    low := count .low
    info := count .info
    heuristic := findings.countP fun f => f.heuristic
    total := findings.length }

/-- The record of the counts. -/
def toData (c : IssueCounts) : Data :=
  .record [("critical", .ofNat c.critical), ("high", .ofNat c.high), ("medium", .ofNat c.medium),
    ("low", .ofNat c.low), ("info", .ofNat c.info), ("heuristic", .ofNat c.heuristic),
    ("total", .ofNat c.total)]

end IssueCounts

end Mend
