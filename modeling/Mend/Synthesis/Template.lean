import Mend.Diff.Unified
import Mend.Synthesis.Capture
import Mend.Synthesis.Effect
import Mend.Synthesis.Lifecycle
import Mend.Synthesis.Operator

/-!
# Templates and candidates

A template serves one kind of issue on some platforms. The first template that drafts a change for
an issue wins; its draft becomes a candidate, and a candidate bound to an issue is a fix.
-/

namespace Mend

/-- A way to mend one kind of issue. -/
structure Template where
  name : String
  kind : IssueKind
  platforms : List Platform
  /-- How sure the change is, from 0 to 100. -/
  confidence : Nat
  /-- Draft a change for an issue at a column of the window's focus line. -/
  build : Option Nat → Window → Attempt Draft

namespace Template

open Synthesis

/-- Every template, in the order in which they are tried. -/
def all : List Template :=
  [⟨"effect-cleanup", .leak, Platform.react, 80, effectCleanup⟩,
   ⟨"lifecycle-scope", .leak, [.android], 70, lifecycleScope⟩,
   ⟨"effect-mount-guard", .raceCondition, Platform.react, 45, effectMountGuard⟩,
   ⟨"mounted-guard", .raceCondition, [.flutter], 60, mountedGuard⟩,
   ⟨"main-thread-dispatch", .raceCondition, [.ios, .android], 50, mainThreadDispatch⟩,
   ⟨"set-state-call", .stateInconsistency, Platform.react, 75, setStateCall⟩,
   ⟨"live-data-post-value", .stateInconsistency, [.android], 80, liveDataPostValue⟩,
   ⟨"strict-equality", .typeMismatch, Platform.react, 85, strictEquality⟩,
   ⟨"conditional-cast", .typeMismatch, [.ios], 75, conditionalCastSwift⟩,
   ⟨"conditional-cast", .typeMismatch, [.android], 70, conditionalCastKotlin⟩,
   ⟨"optional-chaining", .nullReference, [.web, .reactNative, .flutter, .ios], 90,
     optionalChaining⟩,
   ⟨"kotlin-safe-call", .nullReference, [.android], 85, kotlinSafeCall⟩,
   ⟨"weak-self-capture", .retainCycle, [.ios], 70, weakSelfCapture⟩,
   ⟨"weak-delegate", .retainCycle, [.ios], 85, weakDelegate⟩]

/-- The template serves this kind of issue on this platform. -/
def serves (t : Template) (kind : IssueKind) (platform : Platform) : Bool :=
  t.kind = kind && t.platforms.contains platform

/-- Some template serves this kind of issue on this platform. -/
def exists? (kind : IssueKind) (platform : Platform) : Bool :=
  all.any fun t => t.serves kind platform

end Template

/-- A change that is proposed but not yet bound to an issue. -/
structure Candidate where
  template : String
  title : String
  description : String
  confidence : Nat
  /-- The line at which the replaced code starts. -/
  line : Nat
  /-- Whole lines, joined by line feeds. -/
  replacedCode : String
  suggestedCode : String
  alternatives : List Alternative
  deriving Repr, DecidableEq

namespace Candidate

/-- The candidate of a draft. -/
def ofDraft (t : Template) (d : Draft) : Candidate :=
  { template := t.name
    title := d.title
    description := d.description
    confidence := t.confidence
    line := d.firstLine
    replacedCode := String.ofList (Window.joined d.replaced)
    suggestedCode := String.ofList (Window.joined d.suggested)
    alternatives := d.alternatives }

/-- The candidate of the first of several templates that drafts a change. A draft that changes
nothing does not count. -/
def first (column : Option Nat) (w : Window) :
    List Template → Except Text.BadOffset (Option Candidate)
  | [] => .ok none
  | t :: ts => do
    match ← (t.build column w).run with
    | some d => if d.replaced == d.suggested then first column w ts else pure (some (ofDraft t d))
    | none => first column w ts

/-- The candidate for an issue of a kind at a column of the window's focus line. -/
def synthesize (kind : IssueKind) (platform : Platform) (column : Option Nat) (w : Window) :
    Except Text.BadOffset (Option Candidate) :=
  first column w (Template.all.filter fun t => t.serves kind platform)

/-- The text of the diff between the replaced and the suggested code, with the file's line
numbers. -/
def diffText (c : Candidate) (file : Path) (options : Diff.Options) : String :=
  Diff.render file <| Diff.shift (c.line - 1) <|
    Diff.between options (c.replacedCode ++ "\n") (c.suggestedCode ++ "\n")

/-- Bind a candidate to its issue. -/
def toFix (c : Candidate) (issue : Issue) (options : Diff.Options) (id : String) (now : Time) :
    Fix :=
  { id
    issueId := issue.id
    platform := issue.platform
    template := c.template
    title := c.title
    description := c.description
    confidence := c.confidence
    file := issue.file
    line := c.line
    replacedCode := c.replacedCode
    suggestedCode := c.suggestedCode
    diff := c.diffText issue.file options
    alternatives := c.alternatives
    createdAt := now }

end Candidate

/-- How many lines around an issue a template may see. -/
structure SynthesisOptions where
  before : Nat := 3
  after : Nat := 12
  deriving Repr, DecidableEq

/-- The candidate for an issue in a file with the given content. -/
def Candidate.forIssue (o : SynthesisOptions) (issue : Finding) (content : String) :
    Except Text.BadOffset (Option Candidate) :=
  synthesize issue.kind issue.platform issue.column
    (Window.of issue.file content issue.line o.before o.after)

end Mend
