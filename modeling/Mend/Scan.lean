import Mend.FileRole
import Mend.Rule.Catalogue

/-!
# Scanning one file

A scan runs the rules of the chosen categories over a file, drops what is too mild, puts the rest
into the order of listing and keeps at most so many.
-/

namespace Mend

/-- What a scan looks for and where. -/
structure ScanOptions where
  /-- The categories to look for; none means all but the guesses. -/
  categories : Option (List Category) := none
  /-- Run the rules that guess too. -/
  heuristics : Bool := false
  minSeverity : Option Severity := none
  /-- Look only at files with these roles. -/
  roles : Option (List FileRole) := none
  includeTests : Bool := false
  /-- How many issues are kept. -/
  maxIssues : Nat := 10000
  deriving Repr, DecidableEq

namespace ScanOptions

/-- The categories that a scan covers, in order. Control flow is covered exactly when guesses are
asked for. -/
def effectiveCategories (o : ScanOptions) : List Category :=
  let chosen := o.categories.getD (Category.all.filter (· != .controlFlow))
  if o.heuristics then
    if chosen.contains .controlFlow then chosen else chosen ++ [.controlFlow]
  else chosen.filter (· != .controlFlow)

/-- Files with this role are looked at. -/
def wantsRole (o : ScanOptions) (role : FileRole) : Bool :=
  !(role = .test && !o.includeTests) && o.roles.all (·.contains role)

/-- The rules that a scan runs, in order. -/
def rules (o : ScanOptions) (platform : Platform) : List Rule :=
  (Rule.ofCategories platform o.effectiveCategories).filter fun r => o.heuristics || !r.heuristic

end ScanOptions

namespace Scan

/-- Everything the rules say about a file, rule by rule. A file in no supported language has no
findings. -/
def run (rules : List Rule) (path : Path) (content : String) (platform : Platform) :
    Except Text.BadOffset (List Finding) :=
  match Context.of? path content platform with
  | none => .ok []
  | some ctx => do
    let found ← (rules.filter fun r => r.appliesTo ctx).mapM fun r => r.findings ctx
    pure found.flatten

/-- The findings that are bad enough, in the order of listing. -/
def listed (o : ScanOptions) (findings : List Finding) : List Finding :=
  (findings.filter fun f => o.minSeverity.all f.severity.atLeast).mergeSort Finding.listedBefore

/-- The findings of one file. -/
def content (path : Path) (content : String) (platform : Platform) (o : ScanOptions) :
    Except Text.BadOffset (List Finding) := do
  let found ← run (o.rules platform) path content platform
  pure ((listed o found).take o.maxIssues)

end Scan

end Mend
