import Mend.Proofs.Remediation.Reconcile
import Mend.Proofs.Scan

/-!
# The first scan of a project

The files of a project have different paths, so that what a scan finds in one of them is not what it
finds in another one (`Scan.nodup_project`). In a store without issues nothing is known, and the scan
keeps each of its findings as an issue of its own (`Service.Matched.perm_fresh`).
-/

namespace Mend

open Work (exec)

namespace Scan

variable {t : FileTree} {s : Structure} {o : ScanOptions} {switch : Switch} {report : ScanReport}

/-- Findings of different files have different fingerprints. -/
theorem nodup_project (ho : o.ChoosesOnce) (hparts : ((wantedFiles s o).map Path.parts).Nodup)
    (hfiles : ∀ p ∈ wantedFiles s o, ∀ text, t.readText p = .ok text →
      Untangled p text s.platform) (h : project t s o switch = .ok report) :
    (report.findings.map Finding.fingerprint).Nodup := by
  obtain ⟨scanned, hpaths, hscanned, hfindings, -⟩ := project_eq_ok h
  have hfinds : ∀ x ∈ scanned, Finds t s o x.1 x.2 := fun x hx => ((hscanned x.1 x.2).mp hx).2
  have hapart := hparts.sublist (hpaths.map Path.parts)
  rw [List.map_map, List.nodup_iff_pairwise_ne, List.pairwise_map] at hapart
  rw [hfindings]
  refine nodup_listed o ?_
  rw [List.map_flatMap, List.nodup_flatMap]
  constructor
  · intro x hx
    obtain ⟨hwanted, text, htext, hrun⟩ := hfinds x hx
    exact nodup_run ho (hfiles x.1 hwanted text htext) hrun
  · refine hapart.imp_of_mem fun {x y} hx hy hne p hp hp' => hne ?_
    obtain ⟨f, hf, rfl⟩ := List.mem_map.mp hp
    obtain ⟨g, hg, hsame⟩ := List.mem_map.mp hp'
    obtain ⟨-, _, -, hrun⟩ := hfinds x hx
    obtain ⟨-, _, -, hrun'⟩ := hfinds y hy
    have hfile : g.file.parts = f.file.parts := congrArg Finding.Fingerprint.file hsame
    rw [(file_of_mem_run hrun hf).1, (file_of_mem_run hrun' hg).1] at hfile
    exact hfile.symm

end Scan

namespace Service

variable {walk : Walk} {platform : Platform} {o : ScanOptions} {w : Workspace}

theorem Surveyed.nodup_parts {t : FileTree} {s : Structure} (h : Surveyed walk platform t s)
    (ht : t.Grounded) (o : ScanOptions) : ((Scan.wantedFiles s o).map Path.parts).Nodup := by
  have hpaths : s.files.map (·.1) = walk.files t := by
    rw [h.files, List.map_map]
    exact List.map_id _
  refine (walk.nodup_parts_files ht).sublist (List.Sublist.map _ ?_)
  rw [← hpaths]
  exact List.filter_sublist.map _

/-- Where nothing is known, every finding is new. -/
theorem Matched.perm_fresh {findings : List Finding} {issues fresh : List Issue} {w' : Workspace}
    (h : Matched [] findings w issues fresh w')
    (hfindings : (findings.map Finding.fingerprint).Nodup) :
    (fresh.map (·.toFinding.fingerprint)).Perm (findings.map Finding.fingerprint) := by
  rw [← map_fingerprint_issues h.taken] at hfindings ⊢
  refine List.Perm.map _ ((List.perm_ext_iff_of_nodup (List.Nodup.of_map _ h.nodup)
    (List.Nodup.of_map _ hfindings)).mpr fun i => ⟨fun hi => h.subset hi, fun hi => ?_⟩)
  obtain ⟨f, -, hknown | ⟨-, -, hfresh⟩⟩ := exists_of_mem_issues h.taken hi
  · simp [knownIssue?] at hknown
  · exact hfresh

/-! ## Fingerprints -/

/-- If no category is chosen twice and no update of the screen lies in two blocks of background
work, the findings of a file have different fingerprints. So have the issues that a scan brings into
a store without any, whether the scan succeeds or not; if it does, each of its findings is stored. -/
theorem nodup_fingerprints {o : ScanOptions} (ho : o.ChoosesOnce) (platform : Platform) :
    (∀ path text found, Scan.Untangled path text platform →
      Scan.content path text platform o = .ok found →
        (found.map Finding.fingerprint).Nodup) ∧
    ∀ (walk : Walk) (switch : Switch) (w : Workspace), w.tree.Grounded →
      (∀ p ∈ walk.files w.tree, ∀ text, w.tree.readText p = .ok text →
        Scan.Untangled p text platform) →
      w.store.records.issues = [] →
        ∀ r w', exec (scan walk platform o switch) w = (r, w') →
          (w'.store.records.issues.map (·.toFinding.fingerprint)).Nodup ∧
          ∀ out, r = .ok out → (w'.store.records.issues.map (·.toFinding.fingerprint)).Perm
            (out.report.findings.map Finding.fingerprint) := by
  refine ⟨fun path text found hfile => Scan.nodup_content ho hfile, ?_⟩
  intro walk switch w ht hfiles hempty r w' hscan
  rcases exec_scan walk platform o switch w with ⟨fault, hexec⟩ | ⟨s, report, hs, hreport, hexec⟩
  · obtain ⟨rfl, rfl⟩ := Prod.mk.inj (hexec.symm.trans hscan)
    rw [hempty]
    exact ⟨List.nodup_nil, fun _ h => by cases h⟩
  · obtain ⟨issues, w₁, hmatched⟩ := issues_reconcile hempty platform o report
    obtain ⟨_, _, _, _, _, hexec', -, -, -, hout⟩ := exec_reconcile platform o report w
    obtain ⟨rfl, rfl⟩ := Prod.mk.inj (hexec'.symm.trans (hexec.symm.trans hscan))
    rw [hexec'] at hmatched
    have hfindings : (report.findings.map Finding.fingerprint).Nodup := by
      refine Scan.nodup_project ho (hs.nodup_parts ht o) (fun p hp text htext => ?_) hreport
      rw [hs.platform]
      exact hfiles p (hs.mem_wantedFiles.mp hp).1 text htext
    have hstored := hmatched.perm_fresh hfindings
    refine ⟨hstored.nodup_iff.mpr hfindings, fun out hok => ?_⟩
    rw [(hout out hok).1]
    exact hstored

/-- Two updates of the screen in one block of background work. -/
def twoUpdates : String := "s.dataTask() \x7b\n  a.text = b\n  a.alpha = 1\n\x7d\n"

/-- An update of the screen in a line and a column. -/
def updateAt (line column : Nat) : Finding.Fingerprint :=
  ⟨"swift/background-ui-update", .raceCondition, [.name "a.swift"], line, some column⟩

/-- Two assertions. -/
def twoAssertions : String := "user!.name;\nuser!.age;\n"

/-- Both updates are found, once each, and both assertions are stored by the first scan of their
project. -/
theorem nodup_fingerprints_assertions :
    (∃ found, Scan.content ⟨"a.swift"⟩ twoUpdates .ios { categories := some [.raceCondition] } =
      .ok found ∧ (found.map Finding.fingerprint).Perm [updateAt 2 4, updateAt 3 4] ∧
        (found.map Finding.fingerprint).Nodup) ∧
    ∃ out w',
      exec (scan wholeProject .web {} false) (projectOf "a.ts" twoAssertions) = (.ok out, w') ∧
      w'.store.records.issues.length = 2 ∧
      (w'.store.records.issues.map (·.toFinding.fingerprint)).Nodup := by
  constructor
  · obtain ⟨found, hfound, hperm⟩ := Scan.perm_content ⟨"a.swift"⟩ twoUpdates .ios
      { categories := some [.raceCondition] } [updateAt 2 4, updateAt 3 4] rfl (by decide)
      (by decide +kernel)
    refine ⟨found, hfound, hperm, ?_⟩
    refine (nodup_fingerprints ?_ .ios).1 _ _ found ?_ hfound
    · rintro _ ⟨⟩
      decide
    · decide +kernel
  · obtain ⟨all, hrun, hlength⟩ := exists_of_map (g := List.length) (b := 2)
      (x := Scan.run (ScanOptions.rules {} .web) ⟨"/w/a.ts"⟩ twoAssertions .web) (by decide +kernel)
    have hlisted : (Scan.listed {} all).length = 2 := by simpa [Scan.listed] using hlength
    obtain ⟨out, w', hscan, -, hfindings, -⟩ := exec_scan_projectOf
      (w := projectOf "a.ts" twoAssertions) rfl rfl (by decide) hrun (by simp [hlisted])
    obtain ⟨hnodup, hperm⟩ := (nodup_fingerprints (o := {}) (fun _ h => by cases h) .web).2
      wholeProject false (projectOf "a.ts" twoAssertions) (grounded_projectOf _ _)
      (fun _ _ _ _ => Scan.untangled_of_ne_ios (by decide)) rfl _ _ hscan
    have hlength := (hperm out rfl).length_eq
    rw [List.length_map, List.length_map, hfindings, hlisted] at hlength
    exact ⟨out, w', hscan, hlength, hnodup⟩

/-- Background work within background work. -/
def nestedTasks : String :=
  "s.dataTask() \x7b\n  s.dataTask() \x7b\n    a.text = b\n  \x7d\n  a.alpha = 1\n\x7d\n"

/-- A loose equality in a line and a column. -/
def equalityAt (line column : Nat) : Finding.Fingerprint :=
  ⟨"js/loose-equality", .typeMismatch, [.name "a.jsx"], line, some column⟩

/-- What lies in two blocks is found once for each of them, and the rules of a category that is
chosen twice are run twice. -/
theorem not_nodup_fingerprints :
    (∃ found, Scan.content ⟨"a.swift"⟩ nestedTasks .ios { categories := some [.raceCondition] } =
      .ok found ∧ ¬ (found.map Finding.fingerprint).Nodup) ∧
    ∃ found, Scan.content ⟨"a.jsx"⟩ "if (a == b) \x7b\x7d\n" .web
      { categories := some [.typeMismatch, .typeMismatch] } = .ok found ∧
        ¬ (found.map Finding.fingerprint).Nodup := by
  constructor
  · obtain ⟨found, hfound, hperm⟩ := Scan.perm_content ⟨"a.swift"⟩ nestedTasks .ios
      { categories := some [.raceCondition] } [updateAt 3 6, updateAt 5 4, updateAt 3 6] rfl
      (by decide) (by decide +kernel)
    exact ⟨found, hfound, hperm.nodup_iff.not.mpr (by decide)⟩
  · obtain ⟨found, hfound, hperm⟩ := Scan.perm_content ⟨"a.jsx"⟩ "if (a == b) \x7b\x7d\n" .web
      { categories := some [.typeMismatch, .typeMismatch] } [equalityAt 1 7, equalityAt 1 7] rfl
      (by decide) (by decide +kernel)
    exact ⟨found, hfound, hperm.nodup_iff.not.mpr (by decide)⟩

end Service

end Mend
