import Mend.Proofs.Remediation.Run

/-!
# What a scan looks at

The structure of a project is what a walk finds in a tree (`Service.Surveyed`). A scan reads the
files that have a wanted role, and its report depends on nothing but these files and their texts
(`Surveyed.project_unchanged`).
-/

namespace Mend

open Work (exec)

namespace Service

/-- The structure is the one that a walk finds in a tree. -/
structure Surveyed (walk : Walk) (platform : Platform) (t : FileTree) (s : Structure) : Prop where
  root : t.canonical walk.root = .ok s.root
  platform : s.platform = platform
  files : s.files = (walk.files t).map fun p => (p, FileRole.ofPath p)

/-- The files that a walk finds, and their texts, are in one tree as they are in another one. -/
structure Unchanged (walk : Walk) (t t' : FileTree) : Prop where
  root : t'.canonical walk.root = t.canonical walk.root
  files : walk.files t' = walk.files t
  texts : ∀ p ∈ walk.files t, t'.readText p = t.readText p

section

variable {walk : Walk} {platform : Platform} {o : ScanOptions} {w : Workspace} {s : Structure}

theorem Surveyed.unchanged {t t' : FileTree} (h : Surveyed walk platform t s)
    (ht : Unchanged walk t t') : Surveyed walk platform t' s where
  root := ht.root.trans h.root
  platform := h.platform
  files := by rw [ht.files, h.files]

theorem Surveyed.project_unchanged {t t' : FileTree} (h : Surveyed walk platform t s)
    (ht : Unchanged walk t t') (o : ScanOptions) (switch : Switch) :
    Scan.project t' s o switch = Scan.project t s o switch := by
  refine Scan.project_congr rfl rfl (fun p hp => ht.texts p ?_) o switch
  simpa [h.files, Function.comp_def] using hp

theorem exec_ofWalk {root : Path} (hroot : w.tree.canonical walk.root = .ok root)
    (platform : Platform) : ∃ s, exec (Structure.ofWalk walk platform) w = (.ok s, w) ∧
      Surveyed walk platform w.tree s := by
  rw [Structure.ofWalk, Work.exec_bind, Work.exec_reading, hroot]
  exact ⟨_, rfl, hroot, rfl, rfl⟩

theorem Surveyed.mem_wantedFiles {t : FileTree} (h : Surveyed walk platform t s) {p : Path} :
    p ∈ Scan.wantedFiles s o ↔ p ∈ walk.files t ∧ o.wantsRole (FileRole.ofPath p) = true := by
  rw [Scan.wantedFiles, h.files, List.filter_map, List.map_map]
  simp [Function.comp_def]

end

/-! ## A project of one file -/

/-- A walk over `/w`. -/
def wholeProject : Walk := { root := ⟨"/w"⟩, respectGitignore := false }

theorem grounded_projectOf (name text : String) : (projectOf name text).tree.Grounded :=
  FileTree.grounded_of_entries (by simp [projectOf, FileTree.get?]) rfl (by simp [projectOf])

theorem fileAt_projectOf (text : String) :
    (projectOf "a.ts" text).tree.FileAt ⟨"/w/a.ts"⟩ ["w", "a.ts"] := by
  refine ⟨by decide, fun n hn => ?_, _, rfl⟩
  rcases List.mem_cons.mp hn with rfl | hn
  · exact ⟨by decide, by decide, by decide, by decide⟩
  · rw [List.mem_singleton.mp hn]
    exact ⟨by decide, by decide, by decide, by decide⟩

theorem opens_projectOf (name text : String) : (projectOf name text).tree.Opens ⟨"/w"⟩ ["w"] := by
  have hparts : (⟨"/w"⟩ : Path).parts = [.root, .name "w"] := by decide
  constructor
  · rw [hparts]
    exact .root (.enter (e := .directory) rfl rfl (by simp) .done)
  · rfl

theorem files_projectOf (text : String) :
    wholeProject.files (projectOf "a.ts" text).tree = [⟨"/w/a.ts"⟩] := by
  have hroot : (projectOf "a.ts" text).tree.resolve ⟨"/w"⟩ = .ok ["w"] :=
    (opens_projectOf "a.ts" text).leads.follow false
  have hjoin : (⟨"/w"⟩ : Path).join "a.ts" = ⟨"/w/a.ts"⟩ := by decide
  have hfile : (projectOf "a.ts" text).tree.resolve ⟨"/w/a.ts"⟩ = .ok ["w", "a.ts"] :=
    (fileAt_projectOf text).resolve (grounded_projectOf ..)
  have hlist : Ignore.listAt (projectOf "a.ts" text).tree ((⟨"/w"⟩ : Path).join ".ignore") = [] := by
    have hparts : ((⟨"/w"⟩ : Path).join ".ignore").parts = [.root, .name "w", .name ".ignore"] := by
      decide
    have hresolve : (projectOf "a.ts" text).tree.resolve ((⟨"/w"⟩ : Path).join ".ignore") =
        .error .notFound := by
      rw [FileTree.resolve, hparts, FileTree.follow, FileTree.follow, FileTree.follow]
      rfl
    simp only [Ignore.listAt, FileTree.read, FileTree.lookup, hresolve]
    rfl
  have hfound : wholeProject.found (projectOf "a.ts" text).tree = [⟨"/w/a.ts"⟩] := by
    have hnames : (projectOf "a.ts" text).tree.names ["w"] = ["a.ts"] := rfl
    have hentry : (projectOf "a.ts" text).tree.get? ["w", "a.ts"] = some (.file text.toUTF8) := rfl
    rw [Walk.found, wholeProject, hroot]
    simp only [(opens_projectOf "a.ts" text).directory]
    rw [show ((projectOf "a.ts" text).tree.entries.length + 2) *
      ((projectOf "a.ts" text).tree.entries.length + 2) = 15 + 1 from rfl, Walk.filesBelow]
    simp only [List.headD_cons, hnames, List.flatMap_cons, List.flatMap_nil, hjoin, hfile]
    simp only [hentry, Ignore.Lists.of, hlist, Walk.levelsAbove, Bool.false_and, Bool.false_eq_true,
      if_false]
    decide
  simp [Walk.files, hfound, Walk.distinct]

theorem readText_projectOf (text : String) :
    (projectOf "a.ts" text).tree.readText ⟨"/w/a.ts"⟩ = .ok text :=
  FileTree.readText_of_read ((fileAt_projectOf text).read (grounded_projectOf ..) rfl)

theorem exists_report_projectOf {text : String} {platform : Platform} {o : ScanOptions}
    {found : List Finding} (hrole : o.wantsRole (FileRole.ofPath ⟨"/w/a.ts"⟩) = true)
    (hrun : Scan.run (o.rules platform) ⟨"/w/a.ts"⟩ text platform = .ok found)
    (hfew : (Scan.listed o found).length ≤ o.maxIssues) : ∃ s report,
      Surveyed wholeProject platform (projectOf "a.ts" text).tree s ∧
      Scan.project (projectOf "a.ts" text).tree s o false = .ok report ∧
      report.findings = Scan.listed o found ∧ report.cancelled = false ∧
      report.truncated = false := by
  have hroot : (projectOf "a.ts" text).tree.canonical wholeProject.root = .ok (.ofPlace ["w"]) := by
    rw [FileTree.canonical, wholeProject, FileTree.resolve]
    rw [show (⟨"/w"⟩ : Path).text.isEmpty = false from rfl]
    simp only [Bool.false_eq_true, if_false, (opens_projectOf "a.ts" text).leads.follow false]
    rfl
  obtain ⟨s, -, hs⟩ := exec_ofWalk (w := projectOf "a.ts" text) hroot platform
  have hwanted : Scan.wantedFiles s o = [⟨"/w/a.ts"⟩] := by
    rw [Scan.wantedFiles, hs.files, files_projectOf]
    simp [hrole]
  have hfile : Scan.file (projectOf "a.ts" text).tree (o.rules platform) platform ⟨"/w/a.ts"⟩ =
      .ok (some found) := Scan.file_eq_ok_some.mpr ⟨text, readText_projectOf text, hrun⟩
  refine ⟨s, ⟨platform, Scan.listed o found, [⟨"/w/a.ts"⟩], 0, false, false⟩, hs, ?_, rfl, rfl, rfl⟩
  have hstops : (Switch.still false).stops [⟨"/w/a.ts"⟩] = false := Switch.stops_still _ false
  simp [Scan.project, hwanted, Switch.reached_of_not_stops _ _ hstops, hstops, hs.platform, hfile,
    bind, Except.bind, pure, Except.pure, List.take_of_length_le hfew, hfew]

end Service

end Mend
