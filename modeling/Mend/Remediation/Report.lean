import Mend.Scan
import Mend.Structure

/-!
# Scanning a project

A scan runs the rules over the files of a project that have a wanted role. A file that is no text is
skipped. A scan can be called off while it runs: it reports on the files that it had looked at by
then.
-/

namespace Mend

/-- What a scan found. -/
structure ScanReport where
  platform : Platform
  findings : List Finding
  /-- The files that the rules were run on, in the order of paths. -/
  scannedFiles : List Path
  /-- How many files could not be read. -/
  skipped : Nat
  cancelled : Bool
  /-- Some findings were left out because there were too many. -/
  truncated : Bool

/-- The switch that calls a scan off. It is asked before each file, and says this before the one that
comes n-th. Files are scanned side by side: one may still be looked at when an earlier one was not. -/
structure Switch where
  isSet : Nat → Bool

namespace Switch

/-- A switch that nobody touches while the scan runs. -/
def still (set : Bool) : Switch := ⟨fun _ => set⟩

instance : Coe Bool Switch := ⟨still⟩

/-- The files that are looked at. -/
def reached (switch : Switch) (files : List Path) : List Path :=
  (files.zipIdx.filter fun f => !switch.isSet f.2).map (·.1)

/-- Some of the files are not looked at. -/
def stops (switch : Switch) (files : List Path) : Bool :=
  files.zipIdx.any fun f => switch.isSet f.2

end Switch

namespace Scan

/-- The findings of one file; none if it cannot be read. -/
def file (t : FileTree) (rules : List Rule) (platform : Platform) (p : Path) :
    Except Text.BadOffset (Option (List Finding)) :=
  match t.readText p with
  | .ok content => (run rules p content platform).map some
  | .error _ => .ok none

/-- The files of a project that a scan is to look at. -/
def wantedFiles (s : Structure) (o : ScanOptions) : List Path :=
  (s.files.filter fun f => o.wantsRole f.2).map (·.1)

/-- Scan a project. -/
def project (t : FileTree) (s : Structure) (o : ScanOptions) (switch : Switch) :
    Except Text.BadOffset ScanReport := do
  let wanted := wantedFiles s o
  let outcomes ← (switch.reached wanted).mapM fun p => do
    pure (p, ← file t (o.rules s.platform) s.platform p)
  let scanned := outcomes.filterMap fun (p, found) => found.map fun fs => (p, fs)
  let findings := listed o (scanned.flatMap (·.2))
  pure {
    platform := s.platform
    findings := findings.take o.maxIssues
    scannedFiles := (scanned.map (·.1)).mergeSort fun p q => p.compare q != .gt
    skipped := outcomes.length - scanned.length
    cancelled := switch.stops wanted
    truncated := o.maxIssues < findings.length }

end Scan

end Mend
