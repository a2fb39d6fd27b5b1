import Mend.Proofs.Ordering
import Mend.Proofs.Remediation.Source

/-!
# A project as its files

What a scan of a project reports on a file is what a scan of the file alone reports
(`Scan.project_eq_contents`), for findings of different files never stand at the same place in the
order of listing. So it does not matter in which order the files come, and the findings of one file
can be told from the whole list, unless some were left out.
-/

namespace Mend

theorem Path.same_comm (p q : Path) : p.same q = q.same p := BEq.comm

/-- No two files of the project are at the same place. -/
def Structure.Distinct (s : Structure) : Prop := s.files.Pairwise fun a b => ¬ a.1.same b.1

namespace Scan

/-! ## Reports -/

/-- What is found in a file, with the file. -/
abbrev Outcome := Path × Option (List Finding)

/-- The files that were read, with what is found in them. -/
def scanned (outcomes : List Outcome) : List (Path × List Finding) :=
  outcomes.filterMap fun (p, found) => found.map fun fs => (p, fs)

/-- Everything that is found, listed. -/
def allListed (o : ScanOptions) (outcomes : List Outcome) : List Finding :=
  listed o ((scanned outcomes).flatMap (·.2))

/-- The report of a scan that nobody called off. -/
def reportOf (platform : Platform) (o : ScanOptions) (outcomes : List Outcome) : ScanReport where
  platform := platform
  findings := (allListed o outcomes).take o.maxIssues
  scannedFiles := ((scanned outcomes).map (·.1)).mergeSort fun p q => p.compare q != .gt
  skipped := outcomes.length - (scanned outcomes).length
  cancelled := false
  truncated := o.maxIssues < (allListed o outcomes).length

variable {t : FileTree} {s s' : Structure} {o : ScanOptions} {report : ScanReport}

/-- What is found in the wanted files. -/
def outcomes (t : FileTree) (s : Structure) (o : ScanOptions) :
    Except Text.BadOffset (List Outcome) :=
  (wantedFiles s o).mapM fun p => do pure (p, ← file t (o.rules s.platform) s.platform p)

theorem project_eq (t : FileTree) (s : Structure) (o : ScanOptions) :
    project t s o false = (outcomes t s o).map (reportOf s.platform o) := by
  have hstops : (Switch.still false).stops (wantedFiles s o) = false := by
    rw [Switch.stops_still, Bool.false_and]
  rw [project, outcomes]
  simp only [Switch.reached_of_not_stops _ _ hstops, hstops]
  cases (wantedFiles s o).mapM fun p => do pure (p, ← file t (o.rules s.platform) s.platform p) <;>
    rfl

theorem mem_scanned {os : List Outcome} {p : Path} {found : List Finding} :
    (p, found) ∈ scanned os ↔ (p, some found) ∈ os := by
  rw [scanned, List.mem_filterMap]
  constructor
  · rintro ⟨⟨q, found'⟩, hmem, hfound⟩
    cases found' with
    | none => simp at hfound
    | some fs =>
      obtain ⟨rfl, rfl⟩ : q = p ∧ fs = found := by simpa using hfound
      exact hmem
  · exact fun hmem => ⟨_, hmem, rfl⟩

/-- What is found in a file that is read is found by the rules. -/
theorem mem_outcomes {os : List Outcome} (h : outcomes t s o = .ok os) {p : Path}
    {found : List Finding} : (p, found) ∈ scanned os ↔ Finds t s o p found := by
  rw [mem_scanned, mem_mapM h, Finds, ← file_eq_ok_some]
  constructor
  · rintro ⟨q, hq, hfile⟩
    obtain ⟨result, hresult, hpair⟩ := bind_eq_ok.mp hfile
    obtain ⟨rfl, rfl⟩ : q = p ∧ result = some found := by simpa [pure, Except.pure] using hpair
    exact ⟨hq, hresult⟩
  · rintro ⟨hp, hfile⟩
    exact ⟨p, hp, by rw [hfile]; rfl⟩

/-- Different entries are about different files. -/
theorem pairwise_scanned (hs : s.Distinct) {os : List Outcome} (h : outcomes t s o = .ok os) :
    (scanned os).Pairwise fun x y => ¬ x.1.same y.1 := by
  have hwanted : (wantedFiles s o).Pairwise fun p q => ¬ p.same q :=
    List.pairwise_map.mpr (hs.filter _)
  have hfiles := hwanted.sublist ((sublist_scanned os).trans (by rw [map_fst_of_mapM h]))
  exact List.pairwise_map.mp hfiles

/-- Findings of different files are not at the same place in the order. -/
theorem pairwise_apart (hs : s.Distinct) {os : List Outcome} (h : outcomes t s o = .ok os) :
    (scanned os).Pairwise fun x y =>
      ∀ f ∈ x.2, ∀ g ∈ y.2, ¬ Tied Finding.listedBefore f g := by
  refine (pairwise_scanned hs h).imp_of_mem fun {x y} hx hy hne f hf g hg htied => hne ?_
  obtain ⟨-, _, -, hrun⟩ := (mem_outcomes h).mp hx
  obtain ⟨-, _, -, hrun'⟩ := (mem_outcomes h).mp hy
  have hparts := Finding.parts_eq_of_tied htied
  rw [(file_of_mem_run hrun hf).1, (file_of_mem_run hrun' hg).1] at hparts
  exact beq_iff_eq.mpr hparts

/-! ## Files in another order -/

/-- Entries in another order make the same report. -/
theorem reportOf_perm (hs : s.Distinct) {os os' : List Outcome} (h : outcomes t s o = .ok os)
    (hperm : os.Perm os') (platform : Platform) :
    reportOf platform o os = reportOf platform o os' := by
  have hscanned : (scanned os).Perm (scanned os') := hperm.filterMap _
  have hlisted : allListed o os = allListed o os' := by
    rw [allListed, allListed, listed, listed, List.filter_flatMap, List.filter_flatMap]
    refine Finding.ordered_listedBefore.mergeSort_flatMap_perm hscanned ?_
    refine (pairwise_apart hs h).imp fun {x y} hapart f hf g hg => ?_
    exact hapart f (List.mem_filter.mp hf).1 g (List.mem_filter.mp hg).1
  have hfiles : ((scanned os).map (·.1)).mergeSort (fun p q => p.compare q != .gt) =
      ((scanned os').map (·.1)).mergeSort (fun p q => p.compare q != .gt) := by
    rw [List.map_eq_flatMap, List.map_eq_flatMap]
    refine (ordered_of_transCmp Path.compare).mergeSort_flatMap_perm hscanned ?_
    refine (pairwise_scanned hs h).imp fun {x y} hne p hp q hq htied => hne ?_
    rw [List.mem_singleton.mp hp, List.mem_singleton.mp hq] at htied
    exact beq_iff_eq.mpr (Path.compare_eq_iff.mp (eq_of_tied htied))
  rw [reportOf, reportOf, hlisted, hfiles, hperm.length_eq, hscanned.length_eq]

theorem project_perm_of_ok (hs : s.Distinct) (hplatform : s'.platform = s.platform)
    (hfiles : s.files.Perm s'.files) (h : project t s o false = .ok report) :
    project t s' o false = .ok report := by
  rw [project_eq] at h ⊢
  obtain ⟨os, hos, rfl⟩ := exists_of_map h
  have hwanted : (wantedFiles s o).Perm (wantedFiles s' o) := (hfiles.filter _).map _
  obtain ⟨os', hos', hperm⟩ := exists_perm_of_mapM hwanted hos
  rw [outcomes, hplatform, hos', reportOf_perm hs hos hperm]
  rfl

/-! ## One file of many -/

/-- Findings of one file may be chosen before or after they are listed. -/
theorem filter_listed (p : Finding → Bool) (found : List Finding) :
    (listed o found).filter p = listed o (found.filter p) := by
  rw [listed, listed, Finding.ordered_listedBefore.filter_mergeSort, List.filter_comm]

/-- Of what is found in other files, nothing is about the file. -/
theorem filter_others {part : List (Path × List Finding)} {p : Path}
    (hfile : ∀ x ∈ part, ∀ f ∈ x.2, f.file = x.1) (hothers : ∀ x ∈ part, ¬ x.1.same p) :
    (part.flatMap (·.2)).filter (·.file.same p) = [] := by
  rw [List.filter_eq_nil_iff]
  intro f hf
  obtain ⟨x, hx, hfx⟩ := List.mem_flatMap.mp hf
  rw [hfile x hx f hfx]
  exact hothers x hx

/-- Of all that is found, what is about a file is what is found in it. -/
theorem filter_found (hs : s.Distinct) {os : List Outcome} (h : outcomes t s o = .ok os) {p : Path}
    {found : List Finding} (hp : (p, found) ∈ scanned os) :
    ((scanned os).flatMap (·.2)).filter (·.file.same p) = found := by
  have hfile : ∀ x ∈ scanned os, ∀ f ∈ x.2, f.file = x.1 := fun x hx f hf => by
    obtain ⟨-, _, -, hrun⟩ := (mem_outcomes h).mp hx
    exact (file_of_mem_run hrun hf).1
  have hpairwise := pairwise_scanned hs h
  obtain ⟨before, after, hsplit⟩ := List.append_of_mem hp
  rw [hsplit] at hfile hpairwise ⊢
  simp only [List.pairwise_append, List.pairwise_cons, List.forall_mem_cons] at hpairwise
  obtain ⟨-, ⟨hafter, -⟩, hbefore⟩ := hpairwise
  simp only [List.forall_mem_append, List.forall_mem_cons] at hfile
  obtain ⟨hfront, hown, hback⟩ := hfile
  have hbackOthers : ∀ x ∈ after, ¬ x.1.same p := fun x hx => by
    rw [Path.same_comm]
    exact hafter x hx
  have hwhole : found.filter (·.file.same p) = found := by
    rw [List.filter_eq_self]
    intro f hf
    rw [hown f hf]
    exact beq_self_eq_true _
  rw [List.flatMap_append, List.flatMap_cons, List.filter_append, List.filter_append,
    filter_others hfront fun x hx => (hbefore x hx).1, filter_others hback hbackOthers, hwhole,
    List.nil_append, List.append_nil]

theorem content_eq_ok {p : Path} {text : String} {platform : Platform} {found : List Finding} :
    content p text platform o = .ok found ↔
      ∃ all, run (o.rules platform) p text platform = .ok all ∧
        (listed o all).take o.maxIssues = found := by
  rw [content, bind_eq_ok]
  simp [pure, Except.pure]

/-- A project can be scanned exactly if each of its files can be. -/
theorem exists_project_iff : (∃ report, project t s o false = .ok report) ↔
    ∀ p ∈ wantedFiles s o, ∀ text, t.readText p = .ok text →
      ∃ found, content p text s.platform o = .ok found := by
  have hfile : ∀ p, (∃ b, (do pure (p, ← file t (o.rules s.platform) s.platform p) :
      Except Text.BadOffset Outcome) = .ok b) ↔ ∀ text, t.readText p = .ok text →
        ∃ found, content p text s.platform o = .ok found := by
    intro p
    rw [file]
    cases t.readText p with
    | error e => simp [pure, Except.pure, bind, Except.bind]
    | ok text =>
      cases hrun : run (o.rules s.platform) p text s.platform <;>
        simp [content, hrun, Except.map, pure, Except.pure, bind, Except.bind]
  rw [project_eq]
  have houtcomes : (∃ report, (outcomes t s o).map (reportOf s.platform o) = .ok report) ↔
      ∃ os, outcomes t s o = .ok os := by
    cases outcomes t s o <;> simp [Except.map]
  rw [houtcomes, outcomes, exists_mapM_iff]
  exact forall₂_congr fun p _ => hfile p

/-- The report on a project does not depend on the order of its files. There is one if each of the
files can be scanned. If nothing was left out of it, what it says of a file is what a scan of the
file says, and it says nothing else. -/
theorem project_eq_contents (t : FileTree) (o : ScanOptions) (hs : s.Distinct) :
    (∀ s' : Structure, s'.platform = s.platform → s'.files.Perm s.files →
      ∀ report, project t s' o false = .ok report ↔ project t s o false = .ok report) ∧
    ((∃ report, project t s o false = .ok report) ↔
      ∀ p ∈ wantedFiles s o, ∀ text, t.readText p = .ok text →
        ∃ found, content p text s.platform o = .ok found) ∧
    ∀ report, project t s o false = .ok report → report.truncated = false →
      (∀ p ∈ wantedFiles s o, ∀ text, t.readText p = .ok text →
        content p text s.platform o = .ok (report.findings.filter (·.file.same p))) ∧
      ∀ f ∈ report.findings, f.file ∈ wantedFiles s o ∧ ∃ text, t.readText f.file = .ok text := by
  refine ⟨fun s' hplatform hperm report => ⟨?_, ?_⟩, exists_project_iff,
    fun report h htruncated => ⟨?_, ?_⟩⟩
  · have hs' : s'.Distinct := hperm.symm.pairwise hs fun {a b} hne => by
      rwa [Path.same_comm]
    exact project_perm_of_ok hs' hplatform.symm hperm
  · exact project_perm_of_ok hs hplatform hperm.symm
  · intro p hp text htext
    obtain ⟨found, hfound⟩ := exists_project_iff.mp ⟨report, h⟩ p hp text htext
    obtain ⟨all, hall, -⟩ := content_eq_ok.mp hfound
    rw [project_eq] at h
    obtain ⟨os, hos, rfl⟩ := exists_of_map h
    have hfew : (allListed o os).length ≤ o.maxIssues := by simpa [reportOf] using htruncated
    have hown : (allListed o os).filter (·.file.same p) = listed o all := by
      rw [allListed, filter_listed, filter_found hs hos ((mem_outcomes hos).mpr ⟨hp, text, htext, hall⟩)]
    have htake : (listed o all).take o.maxIssues = listed o all :=
      List.take_of_length_le (hown ▸ (List.length_filter_le _ _).trans hfew)
    rw [content_eq_ok]
    refine ⟨all, hall, ?_⟩
    rw [htake, ← hown, reportOf, List.take_of_length_le hfew]
  · intro f hf
    obtain ⟨p, found, ⟨hp, text, htext, hrun⟩, hfound, -⟩ := finds_of_mem_project h hf
    rw [(file_of_mem_run hrun hfound).1]
    exact ⟨hp, text, htext⟩

/-- A text that compares loosely. -/
def comparing : String := "if (a == b) c;\n"

/-- Two files with this text. -/
def comparingTree : FileTree where
  entries := [(["w"], .directory), (["w", "a.js"], .file comparing.toUTF8),
    (["w", "b.js"], .file comparing.toUTF8)]

/-- A project of these files. -/
def comparingProject (files : List Path) : Structure :=
  ⟨⟨"/w"⟩, .web, files.map fun p => (p, .other), []⟩

/-- Only values of different types are looked for. -/
def comparingOptions : ScanOptions := { categories := some [.typeMismatch] }

theorem readText_comparing {p : Path} (hp : p = ⟨"/w/a.js"⟩ ∨ p = ⟨"/w/b.js"⟩) :
    comparingTree.readText p = .ok comparing := by
  have hgrounded : comparingTree.Grounded :=
    FileTree.grounded_of_entries (by simp [comparingTree, FileTree.get?]) rfl
      (by simp [comparingTree])
  have hfile : ∃ place, comparingTree.FileAt p place ∧
      comparingTree.get? place = some (.file comparing.toUTF8) := by
    rcases hp with rfl | rfl
    · refine ⟨["w", "a.js"], ⟨by decide, fun n hn => ?_, _, rfl⟩, rfl⟩
      rcases List.mem_pair.mp hn with rfl | rfl <;>
        exact ⟨by decide, by decide, by decide, by decide⟩
    · refine ⟨["w", "b.js"], ⟨by decide, fun n hn => ?_, _, rfl⟩, rfl⟩
      rcases List.mem_pair.mp hn with rfl | rfl <;>
        exact ⟨by decide, by decide, by decide, by decide⟩
  obtain ⟨place, hplace, hbytes⟩ := hfile
  exact FileTree.readText_of_read (hplace.read hgrounded hbytes)

theorem exists_run_comparing {p : Path} (hp : p = ⟨"/w/a.js"⟩ ∨ p = ⟨"/w/b.js"⟩) :
    ∃ found, run (comparingOptions.rules .web) p comparing .web = .ok found ∧ found.length = 1 := by
  refine exists_of_map ?_
  rcases hp with rfl | rfl <;> decide +kernel

/-- Whichever file comes first, the report is the same, and its part on a file is what is found in
that file. -/
theorem project_eq_contents_swapped : ∃ report,
    project comparingTree (comparingProject [⟨"/w/a.js"⟩, ⟨"/w/b.js"⟩]) comparingOptions false =
      .ok report ∧
    project comparingTree (comparingProject [⟨"/w/b.js"⟩, ⟨"/w/a.js"⟩]) comparingOptions false =
      .ok report ∧
    report.findings.length = 2 ∧
    content ⟨"/w/b.js"⟩ comparing .web comparingOptions =
      .ok (report.findings.filter (·.file.same ⟨"/w/b.js"⟩)) := by
  have hdistinct : (comparingProject [⟨"/w/a.js"⟩, ⟨"/w/b.js"⟩]).Distinct := by
    rw [Structure.Distinct]
    decide
  obtain ⟨hperm, -, hparts⟩ := project_eq_contents comparingTree comparingOptions hdistinct
  obtain ⟨foundA, hrunA, hlengthA⟩ := exists_run_comparing (Or.inl rfl)
  obtain ⟨foundB, hrunB, hlengthB⟩ := exists_run_comparing (Or.inr rfl)
  have hfileA := file_eq_ok_some.mpr ⟨comparing, readText_comparing (Or.inl rfl), hrunA⟩
  have hfileB := file_eq_ok_some.mpr ⟨comparing, readText_comparing (Or.inr rfl), hrunB⟩
  have hall : (allListed comparingOptions
      [(⟨"/w/a.js"⟩, some foundA), (⟨"/w/b.js"⟩, some foundB)]).length = 2 := by
    simp [allListed, scanned, listed, comparingOptions, hlengthA, hlengthB]
  have h : project comparingTree (comparingProject [⟨"/w/a.js"⟩, ⟨"/w/b.js"⟩]) comparingOptions
      false = .ok (reportOf .web comparingOptions
        [(⟨"/w/a.js"⟩, some foundA), (⟨"/w/b.js"⟩, some foundB)]) := by
    have hwanted : wantedFiles (comparingProject [⟨"/w/a.js"⟩, ⟨"/w/b.js"⟩]) comparingOptions =
      [⟨"/w/a.js"⟩, ⟨"/w/b.js"⟩] := by decide
    rw [project_eq, outcomes, hwanted]
    simp only [comparingProject, List.mapM_cons, List.mapM_nil, hfileA, hfileB]
    rfl
  refine ⟨_, h, (hperm (comparingProject [⟨"/w/b.js"⟩, ⟨"/w/a.js"⟩]) rfl
    (List.Perm.swap _ _ _) _).mpr h, ?_, ?_⟩
  · rw [reportOf, List.length_take, hall]
    rfl
  · refine (hparts _ h ?_).1 ⟨"/w/b.js"⟩ (by decide) _ (readText_comparing (Or.inr rfl))
    rw [reportOf, hall]
    rfl

end Scan

end Mend
