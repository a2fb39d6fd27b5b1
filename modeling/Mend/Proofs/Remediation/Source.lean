import Mend.Proofs.Patch.BackupName
import Mend.Proofs.Rule.Basic
import Mend.Proofs.Walk
import Mend.Remediation.Report

/-!
# What a scan reports on

A walk lists canonical paths of files (`Walk.fileAt_of_mem_files`), and rules are run on files of a
known language only. A report tells what the rules find in the files that can be read
(`Scan.project_eq_ok`), as far as the scan got before it was called off (`Switch.reached`), and so
every finding of a scan is about a source file (`Scan.file_of_mem_project`).
-/

namespace Mend

/-- The canonical path of a file in a known language. -/
structure FileTree.Source (t : FileTree) (p : Path) : Prop where
  fileAt : ∃ place, t.FileAt p place
  language : p.language?.isSome

namespace FileTree.Source

variable {t t' : FileTree} {p : Path}

theorem becomes {changed made : Place → Prop} (h : t.Source p) (ht : Becomes changed made t t') :
    t'.Source p where
  fileAt := by
    obtain ⟨place, hplace⟩ := h.fileAt
    exact ⟨place, hplace.becomes ht⟩
  language := h.language

/-- The file is in a directory, under a name that is not reserved. -/
theorem exists_concat (h : t.Source p) : ∃ dir n, t.FileAt p (dir ++ [n]) ∧ ¬ Reserved n := by
  obtain ⟨place, hplace⟩ := h.fileAt
  obtain ⟨dir, n, rfl⟩ := hplace.exists_concat
  refine ⟨dir, n, hplace, not_reserved_of_language ?_ h.language⟩
  rw [hplace.path_eq]
  exact Path.fileName?_ofPlace hplace.proper

end FileTree.Source

/-! ## Switches -/

namespace Switch

variable (switch : Switch) (files : List Path)

/-- The files that are looked at stay in order. -/
theorem sublist_reached : (switch.reached files).Sublist files := by
  have h := List.filter_sublist (l := files.zipIdx) (p := fun f => !switch.isSet f.2)
  simpa [reached] using h.map Prod.fst

/-- A scan that nobody stops looks at every file. -/
theorem reached_of_not_stops (h : switch.stops files = false) : switch.reached files = files := by
  rw [stops, List.any_eq_false] at h
  rw [reached, List.filter_eq_self.mpr fun f hf => by simpa using h f hf, List.zipIdx_map_fst]

theorem stops_still (set : Bool) : (still set).stops files = (set && !files.isEmpty) := by
  cases set <;> cases files <;> simp [stops, still]

end Switch

/-! ## Scans -/

namespace Scan

/-- Rules report on the file and the platform that they are run on, and only if the language of the
file is known. -/
theorem file_of_mem_run {rules : List Rule} {path : Path} {content : String} {platform : Platform}
    {found : List Finding} (h : run rules path content platform = .ok found) {f : Finding}
    (hf : f ∈ found) : f.file = path ∧ f.platform = platform ∧ path.language?.isSome := by
  rcases run_eq_ok h with ⟨-, rfl⟩ | ⟨ctx, lists, hctx, rfl, hlists⟩
  · simp at hf
  · obtain ⟨language, hlanguage, rfl⟩ := Option.map_eq_some_iff.mp hctx
    obtain ⟨l, hl, hfl⟩ := List.mem_flatten.mp hf
    obtain ⟨r, -, hr⟩ := exists_of_mem_right hlists hl
    obtain ⟨-, hfile, hplatform⟩ := Rule.of_mem_findings hr hfl
    exact ⟨hfile, hplatform, by rw [hlanguage]; rfl⟩

theorem file_eq_ok_some {t : FileTree} {rules : List Rule} {platform : Platform} {p : Path}
    {found : List Finding} : file t rules platform p = .ok (some found) ↔
      ∃ content, t.readText p = .ok content ∧ run rules p content platform = .ok found := by
  unfold file
  cases t.readText p with
  | error e => simp
  | ok content => cases hrun : run rules p content platform <;> simp [hrun, Except.map]

variable {t : FileTree} {s : Structure} {o : ScanOptions} {switch : Switch} {report : ScanReport}

/-- A scan is to read the file, and the rules find this in it. -/
def Finds (t : FileTree) (s : Structure) (o : ScanOptions) (p : Path) (found : List Finding) : Prop :=
  p ∈ wantedFiles s o ∧ ∃ content, t.readText p = .ok content ∧
    run (o.rules s.platform) p content s.platform = .ok found

/-- The files that are read stay in order. -/
theorem sublist_scanned : ∀ outcomes : List (Path × Option (List Finding)),
    ((outcomes.filterMap fun (p, found) => found.map fun fs => (p, fs)).map (·.1)).Sublist
      (outcomes.map (·.1))
  | [] => .slnil
  | (p, none) :: outcomes => (sublist_scanned outcomes).cons p
  | (p, some _) :: outcomes => (sublist_scanned outcomes).cons_cons p

/-- A report tells what is found in the files that the scan came to and that can be read. -/
theorem project_eq_ok (h : project t s o switch = .ok report) :
    ∃ scanned : List (Path × List Finding),
      (scanned.map (·.1)).Sublist (wantedFiles s o) ∧
      (∀ p found, (p, found) ∈ scanned ↔
        p ∈ switch.reached (wantedFiles s o) ∧ Finds t s o p found) ∧
      report.findings = (listed o (scanned.flatMap (·.2))).take o.maxIssues ∧
      (report.truncated = false → report.findings = listed o (scanned.flatMap (·.2))) ∧
      ∀ p, p ∈ report.scannedFiles ↔ ∃ found, (p, found) ∈ scanned := by
  simp only [project, bind, Except.bind] at h
  split at h
  · cases h
  · next outcomes houtcomes =>
    cases h
    have hreached := switch.sublist_reached (wantedFiles s o)
    refine ⟨_, ?_, fun p found => ?_, rfl, fun hall => ?_, fun p => ?_⟩
    · refine (sublist_scanned outcomes).trans ?_
      rwa [map_fst_of_mapM houtcomes]
    · have hpair : (p, some found) ∈ outcomes ↔ p ∈ switch.reached (wantedFiles s o) ∧
          file t (o.rules s.platform) s.platform p = .ok (some found) := by
        rw [mem_mapM houtcomes]
        constructor
        · rintro ⟨q, hq, hfile⟩
          split at hfile
          · cases hfile
          · next found' hfound =>
            obtain ⟨rfl, rfl⟩ : q = p ∧ found' = some found := by
              simpa [pure, Except.pure] using hfile
            exact ⟨hq, hfound⟩
        · rintro ⟨hp, hfile⟩
          exact ⟨p, hp, by rw [hfile]; rfl⟩
      have hfinds : p ∈ switch.reached (wantedFiles s o) ∧ Finds t s o p found ↔
          (p, some found) ∈ outcomes := by
        rw [hpair, Finds, ← file_eq_ok_some, ← and_assoc, and_iff_left_of_imp (hreached.subset ·)]
      rw [hfinds, List.mem_filterMap]
      constructor
      · rintro ⟨⟨q, found'⟩, hq, hfound⟩
        cases found' with
        | none => simp at hfound
        | some fs =>
          obtain ⟨rfl, rfl⟩ : q = p ∧ fs = found := by simpa using hfound
          exact hq
      · exact fun hmem => ⟨_, hmem, rfl⟩
    · exact List.take_of_length_le (by simpa using hall)
    · simp

theorem project_fields (h : project t s o switch = .ok report) :
    report.platform = s.platform ∧ report.cancelled = switch.stops (wantedFiles s o) := by
  simp only [project, bind, Except.bind] at h
  split at h
  · cases h
  · cases h
    exact ⟨rfl, rfl⟩

/-- The rules are run on the wanted files that the scan came to and that are texts. -/
theorem mem_scannedFiles (h : project t s o switch = .ok report) {p : Path} :
    p ∈ report.scannedFiles ↔
      p ∈ switch.reached (wantedFiles s o) ∧ ∃ content, t.readText p = .ok content := by
  obtain ⟨scanned, -, hscanned, -, -, hfiles⟩ := project_eq_ok h
  rw [hfiles]
  constructor
  · rintro ⟨found, hfound⟩
    obtain ⟨hreached, -, content, hcontent, -⟩ := (hscanned p found).mp hfound
    exact ⟨hreached, content, hcontent⟩
  · rintro ⟨hreached, content, hcontent⟩
    simp only [project, bind, Except.bind] at h
    split at h
    · cases h
    · next outcomes houtcomes =>
      obtain ⟨pair, hpair⟩ := ok_of_mapM houtcomes hreached
      cases hrun : run (o.rules s.platform) p content s.platform with
      | error e => simp [file, hcontent, hrun, Except.map] at hpair
      | ok found =>
        exact ⟨found, (hscanned p found).mpr
          ⟨hreached, (switch.sublist_reached _).subset hreached, content, hcontent, hrun⟩⟩

/-- A report depends on the texts of the files and their roles alone. -/
theorem project_congr {t' : FileTree} {s' : Structure} (hplatform : s'.platform = s.platform)
    (hfiles : s'.files = s.files) (htexts : ∀ p ∈ s.files.map (·.1), t'.readText p = t.readText p)
    (o : ScanOptions) (switch : Switch) : project t' s' o switch = project t s o switch := by
  have hwanted : wantedFiles s' o = wantedFiles s o := by rw [wantedFiles, hfiles, wantedFiles]
  have hfile : ∀ p ∈ switch.reached (wantedFiles s o),
      file t' (o.rules s.platform) s.platform p = file t (o.rules s.platform) s.platform p := by
    intro p hp
    obtain ⟨pair, hpair, rfl⟩ := List.mem_map.mp ((switch.sublist_reached _).subset hp)
    rw [file, file, htexts _ (List.mem_map_of_mem (List.mem_filter.mp hpair).1)]
  rw [project, project]
  simp only [hwanted, hplatform]
  rw [mapM_congr fun p hp => by rw [hfile p hp]]

/-- A finding of a report is one that the rules make on a file as it is, and is bad enough. -/
theorem finds_of_mem_project (h : project t s o switch = .ok report) {f : Finding}
    (hf : f ∈ report.findings) : ∃ p found, Finds t s o p found ∧ f ∈ found ∧
      o.minSeverity.all f.severity.atLeast = true := by
  obtain ⟨scanned, -, hscanned, hfindings, -⟩ := project_eq_ok h
  rw [hfindings] at hf
  obtain ⟨hf, hsevere⟩ := List.mem_filter.mp (List.mem_mergeSort.mp (List.mem_of_mem_take hf))
  obtain ⟨⟨p, found⟩, hpair, hfound⟩ := List.mem_flatMap.mp hf
  exact ⟨p, found, ((hscanned p found).mp hpair).2, hfound, hsevere⟩

/-- A scan that came to every file and left nothing out reports whatever is found. -/
theorem mem_project_iff (h : project t s o switch = .ok report) (hcancelled : report.cancelled = false)
    (htruncated : report.truncated = false) {f : Finding} : f ∈ report.findings ↔
      ∃ p found, Finds t s o p found ∧ f ∈ found ∧ o.minSeverity.all f.severity.atLeast = true := by
  refine ⟨finds_of_mem_project h, fun ⟨p, found, hfinds, hf, hsevere⟩ => ?_⟩
  obtain ⟨scanned, -, hscanned, -, hall, -⟩ := project_eq_ok h
  have hreached := switch.reached_of_not_stops _ ((project_fields h).2.symm.trans hcancelled)
  have hmem : (p, found) ∈ scanned :=
    (hscanned p found).mpr ⟨by rw [hreached]; exact hfinds.1, hfinds⟩
  rw [hall htruncated, listed, List.mem_mergeSort, List.mem_filter]
  exact ⟨List.mem_flatMap.mpr ⟨_, hmem, hf⟩, hsevere⟩

/-- Where every file could be looked at, a scan that is called off has a report, too. -/
theorem exists_project_of_complete (h : project t s o switch = .ok report)
    (hcancelled : report.cancelled = false) (switch' : Switch) :
    ∃ report', project t s o switch' = .ok report' := by
  have hreached := switch.reached_of_not_stops _ ((project_fields h).2.symm.trans hcancelled)
  rw [project, hreached] at h
  obtain ⟨outcomes, houtcomes, -⟩ := bind_eq_ok.mp h
  obtain ⟨outcomes', houtcomes'⟩ := exists_mapM_iff.mpr fun p hp =>
    ok_of_mapM houtcomes ((switch'.sublist_reached _).subset hp)
  rw [project, houtcomes']
  exact ⟨_, rfl⟩

/-- Every finding of a scan is about one of the files, which is in a known language. -/
theorem file_of_mem_project (h : project t s o switch = .ok report) {f : Finding}
    (hf : f ∈ report.findings) : f.file ∈ s.files.map (·.1) ∧ f.file.language?.isSome := by
  obtain ⟨p, found, ⟨hwanted, content, -, hrun⟩, hfound, -⟩ := finds_of_mem_project h hf
  obtain ⟨rfl, -, hlanguage⟩ := file_of_mem_run hrun hfound
  obtain ⟨pair, hpair, hfile⟩ := List.mem_map.mp hwanted
  exact ⟨hfile ▸ List.mem_map_of_mem (List.mem_filter.mp hpair).1, hlanguage⟩

end Scan

end Mend
