import Mend.Config.Markers
import Mend.Data.Json
import Mend.Data.Toml
import Mend.Diff.Hunk
import Mend.Patch.Applier
import Mend.Scan
import Mend.Synthesis.Template
import Mend.Walk

/-!
# Project configuration

A project may have a configuration file in its root, in TOML or in JSON. The TOML file wins if it
can be read; a file that cannot be read counts for nothing. Whatever a file leaves out has its
default.
-/

namespace Mend

/-- Whether new fixes wait for someone to confirm them. -/
inductive Policy where
  | manual
  /-- Confirm a fix as it is made if its confidence is at least the threshold. -/
  | autoAbove (threshold : Nat)
  deriving Repr, DecidableEq

namespace Policy

/-- A fix of this confidence is confirmed as it is made. -/
def confirms : Policy → Nat → Bool
  | manual, _ => false
  | autoAbove threshold, confidence => threshold ≤ confidence

/-- The policy with a threshold, or with none. -/
def ofThreshold : Option Nat → Policy
  | some t => autoAbove t
  | none => manual

/-- The record of a policy. -/
def toData : Policy → Data
  | manual => .record [("mode", .text "manual")]
  | autoAbove threshold =>
    .record [("mode", .text "auto_above"), ("threshold", .ofNat threshold)]

end Policy

/-- How a project is scanned. -/
structure ScanConfig where
  /-- The extensions to look at instead of the platform's. -/
  extensions : Option (List String) := none
  maxDepth : Nat := 10
  /-- Names of directories that are not entered. -/
  exclude : List String := []
  /-- Do not exclude anything else. -/
  skipDefaultExcludes : Bool := false
  respectGitignore : Bool := true
  heuristics : Bool := false
  categories : Option (List Category) := none
  minSeverity : Option Severity := none
  includeTests : Bool := false
  deriving Repr, DecidableEq

namespace ScanConfig

/-- The walk of a project. Dots in front of an extension do not count. -/
def walk (c : ScanConfig) (root : Path) (platform : Platform) : Walk :=
  { root
    extensions := (c.extensions.getD platform.extensions).map fun e =>
      String.ofList (e.toList.dropWhile (· == '.'))
    maxDepth := c.maxDepth
    exclude := (if c.skipDefaultExcludes then [] else Walk.defaultExcludes) ++ c.exclude
    respectGitignore := c.respectGitignore }

/-- The options of a scan. -/
def options (c : ScanConfig) : ScanOptions :=
  { categories := c.categories
    heuristics := c.heuristics
    minSeverity := c.minSeverity
    includeTests := c.includeTests }

/-- The names of the record's fields, in order. -/
def fieldNames : List String :=
  ["extensions", "max_depth", "exclude", "skip_default_excludes", "respect_gitignore", "heuristics",
   "categories", "min_severity", "include_tests"]

/-- Read the record of a scan configuration. -/
def ofData? (format : Data.Format) (d : Data) : Option ScanConfig := do
  let f ← Fields.of? format fieldNames d
  let default : ScanConfig := {}
  pure {
    extensions := ← f.optional "extensions" (Data.toList? Data.toText?)
    maxDepth := ← f.withDefault "max_depth" (Data.toNat? Data.countLimit) default.maxDepth
    exclude := ← f.withDefault "exclude" (Data.toList? Data.toText?) default.exclude
    skipDefaultExcludes :=
      ← f.withDefault "skip_default_excludes" Data.toBool? default.skipDefaultExcludes
    respectGitignore := ← f.withDefault "respect_gitignore" Data.toBool? default.respectGitignore
    heuristics := ← f.withDefault "heuristics" Data.toBool? default.heuristics
    categories := ← f.optional "categories" (Data.toList? (Category.ofData? format))
    minSeverity := ← f.optional "min_severity" (Severity.ofData? format)
    includeTests := ← f.withDefault "include_tests" Data.toBool? default.includeTests }

/-- The record of a list of texts, or of none. -/
def textsData : Option (List String) → Data
  | some l => .list (l.map Data.text)
  | none => .null

/-- The record of a scan configuration. -/
def toData (c : ScanConfig) : Data :=
  .record [("extensions", textsData c.extensions), ("max_depth", .ofNat c.maxDepth),
    ("exclude", textsData (some c.exclude)),
    ("skip_default_excludes", .bool c.skipDefaultExcludes),
    ("respect_gitignore", .bool c.respectGitignore), ("heuristics", .bool c.heuristics),
    ("categories", textsData (c.categories.map fun l => l.map Category.name)),
    ("min_severity", .ofText? (c.minSeverity.map Severity.name)),
    ("include_tests", .bool c.includeTests)]

end ScanConfig

/-- How issues are mended. -/
structure RemediationConfig where
  /-- Confirm fixes of at least this confidence as they are made. -/
  autoConfirmThreshold : Option Nat := none
  validateSyntax : Bool := true
  /-- Where backups go; a relative path starts at the project's root. -/
  backupDir : Option Path := none
  anchorOffset : Nat := 3
  contextBefore : Nat := 3
  contextAfter : Nat := 12
  deriving Repr, DecidableEq

namespace RemediationConfig

/-- Who confirms fixes. -/
def policy (c : RemediationConfig) : Policy := .ofThreshold c.autoConfirmThreshold

/-- The backup directory of a project. -/
def backups (c : RemediationConfig) (root : Path) : Path :=
  root.join (match c.backupDir with
    | some dir => dir.text
    | none => Backup.defaultDirectory)

/-- How the project's files are patched. -/
def applier (c : RemediationConfig) (root : Path) : Patch.Applier :=
  { backups := c.backups root
    locator := { anchorOffset := c.anchorOffset }
    validate := c.validateSyntax }

/-- How much of a file a template may see. -/
def synthesis (c : RemediationConfig) : SynthesisOptions := ⟨c.contextBefore, c.contextAfter⟩

/-- Read the record of a configuration of fixes. -/
def ofData? (format : Data.Format) (d : Data) : Option RemediationConfig := do
  let f ← Fields.of? format ["auto_confirm_threshold", "validate_syntax", "backup_dir",
    "anchor_offset", "context_before", "context_after"] d
  let default : RemediationConfig := {}
  let count := Data.toNat? Data.countLimit
  pure {
    autoConfirmThreshold := ← f.optional "auto_confirm_threshold" (Data.toNat? Data.byteLimit)
    validateSyntax := ← f.withDefault "validate_syntax" Data.toBool? default.validateSyntax
    backupDir := ← f.optional "backup_dir" Issue.pathOf?
    anchorOffset := ← f.withDefault "anchor_offset" count default.anchorOffset
    contextBefore := ← f.withDefault "context_before" count default.contextBefore
    contextAfter := ← f.withDefault "context_after" count default.contextAfter }

/-- The record of a configuration of fixes. -/
def toData (c : RemediationConfig) : Data :=
  .record [("auto_confirm_threshold", .ofNat? c.autoConfirmThreshold),
    ("validate_syntax", .bool c.validateSyntax), ("backup_dir", Fix.pathData c.backupDir),
    ("anchor_offset", .ofNat c.anchorOffset), ("context_before", .ofNat c.contextBefore),
    ("context_after", .ofNat c.contextAfter)]

end RemediationConfig

/-- Read the record of diff options. -/
def Diff.Options.ofData? (format : Data.Format) (d : Data) : Option Diff.Options := do
  let f ← Fields.of? format ["algorithm", "context_lines"] d
  let default : Diff.Options := {}
  pure {
    algorithm := ← f.withDefault "algorithm" (Diff.Algorithm.ofData? format) default.algorithm
    contextLines :=
      ← f.withDefault "context_lines" (Data.toNat? Data.countLimit) default.contextLines }

/-- The record of diff options. -/
def Diff.Options.toData (o : Diff.Options) : Data :=
  .record [("algorithm", .text o.algorithm.name), ("context_lines", .ofNat o.contextLines)]

/-- The configuration of a project. -/
structure Config where
  /-- The platform; none means to guess. -/
  platform : Option Platform := none
  scan : ScanConfig := {}
  remediation : RemediationConfig := {}
  diff : Diff.Options := {}
  deriving Repr, DecidableEq

namespace Config

/-- Read the record of a configuration. -/
def ofData? (format : Data.Format) (d : Data) : Option Config := do
  let f ← Fields.of? format ["platform", "scan", "remediation", "diff"] d
  pure {
    platform := ← f.optional "platform" (Platform.ofData? format)
    scan := ← f.withDefault "scan" (ScanConfig.ofData? format) {}
    remediation := ← f.withDefault "remediation" (RemediationConfig.ofData? format) {}
    diff := ← f.withDefault "diff" (Diff.Options.ofData? format) {} }

/-- The record of a configuration. -/
def toData (c : Config) : Data :=
  .record [("platform", .ofText? (c.platform.map Platform.name)), ("scan", c.scan.toData),
    ("remediation", c.remediation.toData), ("diff", c.diff.toData)]

/-- The configuration with a threshold of at most one hundred. -/
def normalized (c : Config) : Config :=
  { c with remediation := { c.remediation with
      autoConfirmThreshold := c.remediation.autoConfirmThreshold.map (min 100) } }

/-- The name of the configuration file in TOML. -/
def tomlFile : String := "appmedic.toml"

/-- The name of the configuration file in JSON. -/
def jsonFile : String := ".appmedicrc.json"

/-- The configuration in a file, if the file is there and can be read. -/
def inFile? (t : FileTree) (p : Path) (format : Data.Format) (read? : String → Option Data) :
    Option Config :=
  match t.readText p with
  | .ok text => (read? text).bind (ofData? format)
  | .error _ => none

/-- The configuration of the project in a directory. -/
def load (t : FileTree) (root : Path) : Config :=
  (((inFile? t (root.join tomlFile) .toml Toml.read?).or
    (inFile? t (root.join jsonFile) .json Json.read?)).map normalized).getD {}

/-- The platform of a project: as configured, else as its files suggest. -/
def platformFor (c : Config) (t : FileTree) (root : Path) : Option Platform :=
  c.platform.or (Markers.platform? t root)

/-- A configuration file to start with. -/
def starterText (platform : Option Platform) : String :=
  let platformLine := match platform with
    | some p => "platform = \"" ++ p.name ++ "\""
    | none => "# platform = \"web\"  # web, react-native, flutter, ios, android"
  let scan : ScanConfig := {}
  let remediation : RemediationConfig := {}
  let diff : Diff.Options := {}
  String.intercalate "\n" [
    "# appmedic configuration",
    platformLine,
    "",
    "[scan]",
    "# Directory names to skip, on top of node_modules, build, Pods, .dart_tool, ...",
    "exclude = []",
    s!"max_depth = {scan.maxDepth}",
    "respect_gitignore = true",
    "# Opt-in infinite-loop and unreachable-code heuristics (noisy)",
    "heuristics = false",
    "# min_severity = \"low\"",
    "",
    "[remediation]",
    "# Confirm fixes automatically at or above this confidence (0-100)",
    "# auto_confirm_threshold = 85",
    "validate_syntax = true",
    s!"anchor_offset = {remediation.anchorOffset}",
    "",
    "[diff]",
    "# lookahead (fast) or lcs (minimal)",
    "algorithm = \"lookahead\"",
    s!"context_lines = {diff.contextLines}",
    ""]

end Config

end Mend
