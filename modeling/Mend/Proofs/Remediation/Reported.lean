import Mend.Proofs.Remediation.Reconcile

/-!
# What a report says of a file

Every issue of a report has the fingerprint of a finding that the rules make on the files as they are
(`Service.Current`), and the bound on severities is put to that finding. An issue that was not stored
before is that finding; one that was is reported as it is stored (`Service.current_of_reported`).

Lines around a finding may change while its fingerprint stays the same, and then the stored issue
says something else than the finding does (`Service.not_current_severity`).
-/

namespace Mend

open Work (exec)

namespace Service

/-- The rules make the finding on a file of the project as it is, and it is bad enough. -/
def Current (walk : Walk) (platform : Platform) (o : ScanOptions) (t : FileTree) (f : Finding) :
    Prop :=
  ∃ p ∈ walk.files t, ∃ content found, t.readText p = .ok content ∧
    Scan.run (o.rules platform) p content platform = .ok found ∧ f ∈ found ∧
    ∀ bound, o.minSeverity = some bound → f.severity.atLeast bound = true

/-- A reported issue is a finding on the files as they are, or the stored issue with the fingerprint
of one. So it is where the scan was called off, of the files that were scanned before. -/
theorem current_of_reported {walk : Walk} {platform : Platform} {o : ScanOptions} {switch : Switch}
    {w w' : Workspace} {out : ScanOutcome}
    (hscan : exec (scan walk platform o switch) w = (.ok out, w')) {i : Issue}
    (hi : i ∈ out.issues) :
    ∃ f, Current walk platform o w.tree f ∧ i.toFinding.fingerprint = f.fingerprint ∧
      ((i ∈ w.store.records.issues ∧ i.platform = platform) ∨
        (i.toFinding = f ∧ ∀ j ∈ w.store.records.issues, j.platform = platform →
          j.toFinding.fingerprint ≠ f.fingerprint)) := by
  obtain ⟨s, fresh, w₁, hs, hreport, hmatched, -⟩ := exec_scan_eq_ok hscan
  obtain ⟨f, hf, htaken⟩ := exists_of_mem_issues hmatched.taken hi
  refine ⟨f, ?_, htaken.fingerprint, ?_⟩
  · obtain ⟨p, found, ⟨hwanted, content, hcontent, hrun⟩, hfound, hsevere⟩ :=
      Scan.finds_of_mem_project hreport hf
    rw [hs.platform] at hrun
    rw [Option.all_eq_true] at hsevere
    exact ⟨p, (hs.mem_wantedFiles.mp hwanted).1, content, found, hcontent, hrun, hfound, hsevere⟩
  · rcases htaken with hknown | ⟨hnone, hfinding, -⟩
    · exact Or.inl (Records.mem_listIssues.mp (knownIssue?_eq_some hknown).1)
    · exact Or.inr ⟨hfinding, fun j hj hplatform =>
        knownIssue?_eq_none.mp hnone j (Records.mem_listIssues.mpr ⟨hj, hplatform⟩)⟩

/-- The assertion is found in the file, and reported as it was found. -/
theorem current_of_reported_tested : ∃ out w' i f,
    exec (scan wholeProject .web {} false) (projectOf "a.ts" testedText) = (.ok out, w') ∧
    i ∈ out.issues ∧ Current wholeProject .web {} (projectOf "a.ts" testedText).tree f ∧
    i.toFinding = f := by
  obtain ⟨f, hrun, -⟩ := run_testedText
  have hlisted : Scan.listed {} [f] = [f] := by simp [Scan.listed]
  obtain ⟨out, w', hscan, -, hfindings, -⟩ := exec_scan_projectOf (w := projectOf "a.ts" testedText)
    rfl rfl (by decide) hrun (by simp [hlisted])
  rw [hlisted] at hfindings
  obtain ⟨s, fresh, w₁, -, -, hmatched, -⟩ := exec_scan_eq_ok hscan
  obtain ⟨i, hi, -⟩ := hmatched.reports_iff.mpr ⟨f, by simp [hfindings], rfl⟩
  obtain ⟨g, hcurrent, -, ⟨hstored, -⟩ | ⟨hfinding, -⟩⟩ := current_of_reported hscan hi
  · simp [projectOf] at hstored
  · exact ⟨out, w', i, g, hscan, hi, hcurrent, hfinding⟩

/-- The value is not tested any more. -/
def untestedText : String := "log(user);\nuser!.name;\n"

/-- Issues that are at least of medium severity are looked for. -/
def mediumOptions : ScanOptions := { minSeverity := some .medium }

theorem run_untestedText : ∃ f, Scan.run (mediumOptions.rules .web) ⟨"/w/a.ts"⟩ untestedText .web =
    .ok [f] ∧ (f.severity, f.fingerprint) = (.medium, assertion) :=
  exists_singleton_of_map (g := fun f : Finding => (f.severity, f.fingerprint)) (by decide +kernel)

/-- The tested file is scanned for the first time, and the assertion is all that is stored. -/
theorem exec_scan_testedText : ∃ out w',
    exec (scan wholeProject .web {} false) (projectOf "a.ts" testedText) = (.ok out, w') ∧
    w'.store.home = none ∧
    (∃ i ∈ w'.store.records.issues, i.platform = .web ∧ i.toFinding.fingerprint = assertion) ∧
    ∀ i ∈ w'.store.records.issues, i.severity = .low := by
  obtain ⟨f, hrun, hf⟩ := run_testedText
  obtain ⟨hlow, hassertion⟩ := Prod.mk.inj hf
  have hlisted : Scan.listed {} [f] = [f] := by simp [Scan.listed]
  obtain ⟨out, w', hscan, -, hfindings, -, hhome, -⟩ := exec_scan_projectOf
    (w := projectOf "a.ts" testedText) rfl rfl (by decide) hrun (by simp [hlisted])
  obtain ⟨s, fresh, w₁, hs, hreport, hmatched, hexec⟩ := exec_scan_eq_ok hscan
  have hreconciled :=
    reconciled_of_report (by simp [projectOf]) (by simp [projectOf]) hs hreport hexec
  refine ⟨out, w', hscan, hhome, ?_, ?_⟩
  · obtain ⟨i, hi, hfound⟩ := hmatched.reports_iff.mpr ⟨f, by simp [hfindings, hlisted], hassertion⟩
    obtain ⟨j, hj, hplatform, hsame⟩ := hreconciled.stored i hi
    exact ⟨j, hj, hplatform, hsame.trans hfound⟩
  · intro i hi
    have hi' := (hreconciled.added i hi).resolve_left (by simp [projectOf])
    obtain ⟨g, hg, hknown | ⟨-, hfinding, -⟩⟩ := exists_of_mem_issues hmatched.taken hi'
    · simp [projectOf, Records.listIssues, knownIssue?] at hknown
    · obtain rfl : g = f := by simpa [hfindings, hlisted] using hg
      rw [hfinding, hlow]

/-- The file is scanned, edited and scanned once more. The rules say that the assertion is of medium
severity now, but it is reported as it was stored, with a severity below the bound. -/
theorem not_current_severity : ∃ first w₁ out w₂ i f,
    exec (scan wholeProject .web {} false) (projectOf "a.ts" testedText) = (.ok first, w₁) ∧
    exec (scan wholeProject .web mediumOptions false)
      { w₁ with tree := (projectOf "a.ts" untestedText).tree } = (.ok out, w₂) ∧
    i ∈ out.issues ∧
    Current wholeProject .web mediumOptions (projectOf "a.ts" untestedText).tree f ∧
    f.fingerprint = i.toFinding.fingerprint ∧ i.severity ≠ f.severity ∧
    i.severity.atLeast .medium = false := by
  obtain ⟨first, w₁, hfirst, hhome, ⟨j, hj, hplatform, hassertion⟩, hlow⟩ := exec_scan_testedText
  obtain ⟨f, hrun, hf⟩ := run_untestedText
  obtain ⟨hmedium, hfingerprint⟩ := Prod.mk.inj hf
  have hlisted : Scan.listed mediumOptions [f] = [f] := by
    simp [Scan.listed, mediumOptions, hmedium, Severity.atLeast]
  obtain ⟨out, w₂, hscan, -, hfindings, -, -⟩ := exec_scan_projectOf
    (w := { w₁ with tree := (projectOf "a.ts" untestedText).tree }) rfl hhome (by decide) hrun
    (by simp only [hlisted, List.length_singleton]; decide)
  rw [hlisted] at hfindings
  obtain ⟨s, fresh, w', -, -, hmatched, -⟩ := exec_scan_eq_ok hscan
  obtain ⟨i, hi, -⟩ := hmatched.reports_iff.mpr ⟨f, by simp [hfindings], rfl⟩
  obtain ⟨g, hg, htaken⟩ := exists_of_mem_issues hmatched.taken hi
  obtain rfl : g = f := by simpa [hfindings] using hg
  have hseverity : i.severity = .low := by
    rcases htaken with hknown | ⟨hnone, -, -⟩
    · exact hlow i (Records.mem_listIssues.mp (knownIssue?_eq_some hknown).1).1
    · exact absurd (hassertion.trans hfingerprint.symm)
        (knownIssue?_eq_none.mp hnone j (Records.mem_listIssues.mpr ⟨hj, hplatform⟩))
  refine ⟨first, w₁, out, w₂, i, g, hfirst, hscan, hi, ?_, htaken.fingerprint.symm, ?_, ?_⟩
  · refine ⟨⟨"/w/a.ts"⟩, ?_, untestedText, [g], readText_projectOf _, hrun, by simp, ?_⟩
    · exact files_projectOf untestedText ▸ List.mem_singleton_self _
    · rintro _ ⟨⟩
      rw [hmedium]
      rfl
  · simp [hseverity, hmedium]
  · rw [hseverity]
    rfl

end Service

end Mend
