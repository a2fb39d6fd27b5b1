import Mend.Proofs.Store.Session

/-!
# Requests that fail

A request fails because of a file that cannot be written, or because there is no such fix. The files
stay as they were either way, so that a store that is opened again is the same store. The open one
is the same where the request was refused, or was to add a line, for the line is written before it is
kept. Every other change is kept in memory before it is written, so that the open store answers from
then on as though it had been written (`reads_of_failed`, `not_reads_of_failed`).
-/

namespace Mend.Store

open Work (exec)

/-! ## Kinds of requests -/

namespace Request

/-- The request changes the records. -/
def Mutates : Request → Prop
  | saveIssues _ | deleteIssue _ | deleteIssues _ | saveFix _ | updateFix _ | deleteFix _
  | append _ => True
  | _ => False

/-- The request looks at the records. -/
def Looks : Request → Prop
  | issue? _ | listIssues _ | fix? _ | listFixes _ | trail _ => True
  | _ => False

/-- The request adds a line to the audit trail. -/
def Appends : Request → Prop
  | append _ => True
  | _ => False

/-- The records in memory when a file could not be written. -/
def left (r : Records) : Request → Records
  | append _ => r
  | q => (q.told r).2

theorem exec_look {q : Request} (hq : q.Looks) (w : Workspace) :
    exec q.answer w = ((q.told w.store.records).1, w) := by
  cases q <;> first | rfl | exact hq.elim

end Request

/-! ## Operations that fail -/

/-- If the operation fails, a file could not be written, and all is as it was but for the records in
memory. -/
def FailsWith {α : Type} (w : Workspace) (x : Work α) (r : Records) : Prop :=
  ∀ e w', exec x w = (.error e, w') →
    (∃ p cause, e = .io p cause) ∧ w' = { w with store := { w.store with records := r } }

theorem exec_of_map_error {α β : Type} {f : α → β} {x : Work α} {w w' : Workspace} {e : Fault}
    (h : exec (f <$> x) w = (.error e, w')) : exec x w = (.error e, w') := by
  rw [Work.exec_map] at h
  obtain ⟨hresult, rfl⟩ := Prod.mk.inj h
  cases hx : exec x w with
  | mk result w₁ =>
    rw [hx] at hresult
    cases result with
    | ok a => cases hresult
    | error e' => rw [Except.error.inj hresult]

namespace FailsWith

variable {α β : Type} {w : Workspace} {x : Work α} {r : Records}

theorem map (h : FailsWith w x r) (f : α → β) : FailsWith w (f <$> x) r :=
  fun e w' hexec => h e w' (exec_of_map_error hexec)

theorem then_pure (h : FailsWith w x r) (f : α → β) : FailsWith w (x >>= fun a => pure (f a)) r := by
  rw [← map_eq_pure_bind]
  exact h.map f

/-- The records are looked at first. -/
theorem look {f : Records → Work α} (h : FailsWith w (f w.store.records) r) :
    FailsWith w (current >>= f) r := by
  intro e w' hexec
  rw [Work.exec_bind, exec_current] at hexec
  exact h e w' hexec

/-- Records are changed in memory before they are written. -/
theorem set {f : Unit → Work α}
    (h : FailsWith { w with store := { w.store with records := r } } (f ()) r) :
    FailsWith w (setRecords r >>= f) r := by
  intro e w' hexec
  rw [Work.exec_bind, exec_setRecords] at hexec
  exact h e w' hexec

end FailsWith

variable {w w' : Workspace}

theorem failsWith_persist (w : Workspace) (file : String) (items : List Data) :
    FailsWith w (persist file items) w.store.records := by
  intro e w' hexec
  rw [persist, Work.exec_bind, Work.exec_get] at hexec
  cases hhome : w.store.home with
  | none => simp [hhome] at hexec
  | some dir =>
    simp only [hhome] at hexec
    rcases Work.exec_write (dir.join file) (Json.pretty (.list items)).toUTF8 w with
      ⟨t, -, -, hwrite⟩ | ⟨p, cause, hfails, -⟩
    · rw [hwrite] at hexec
      cases hexec
    · rw [hfails] at hexec
      cases hexec
      exact ⟨⟨p, cause, rfl⟩, rfl⟩

theorem failsWith_persistIssues (w : Workspace) :
    FailsWith w persistIssues w.store.records := .look (failsWith_persist w _ _)

theorem failsWith_persistFixes (w : Workspace) :
    FailsWith w persistFixes w.store.records := .look (failsWith_persist w _ _)

theorem failsWith_saveIssues (w : Workspace) (issues : List Issue) :
    FailsWith w (saveIssues issues) (w.store.records.saveIssues issues) :=
  .look (.set (failsWith_persistIssues _))

theorem failsWith_deleteIssues (w : Workspace) (ids : List String) :
    FailsWith w (deleteIssues ids) (w.store.records.deleteIssues ids) := by
  unfold deleteIssues
  split
  · exact fun e w' hexec => nomatch congrArg Prod.fst hexec
  · exact .look (.set ((failsWith_persistIssues _).then_pure _))

theorem failsWith_saveFix (w : Workspace) (f : Fix) :
    FailsWith w (saveFix f) (w.store.records.saveFix f) :=
  .look (.set (failsWith_persistFixes _))

theorem failsWith_deleteFix (w : Workspace) (id : String) :
    FailsWith w (deleteFix id) (w.store.records.deleteFix id) :=
  .look (.set ((failsWith_persistFixes _).then_pure _))

/-- A line is written before it is kept. -/
theorem failsWith_append (w : Workspace) (a : Application) :
    FailsWith w (append a) w.store.records := by
  intro e w' hexec
  rw [append, Work.exec_bind, Work.exec_get] at hexec
  cases hhome : w.store.home with
  | none =>
    simp only [hhome] at hexec
    rw [Work.exec_bind, exec_current] at hexec
    cases congrArg Prod.fst hexec
  | some dir =>
    simp only [hhome] at hexec
    rw [Work.exec_bind, Work.exec_changing] at hexec
    cases happend : w.tree.append (dir.join applicationsFile)
        (Json.compact a.toData ++ "\n").toUTF8 with
    | ok t =>
      simp only [happend] at hexec
      rw [Work.exec_bind, exec_current] at hexec
      cases congrArg Prod.fst hexec
    | error cause =>
      simp only [happend] at hexec
      cases hexec
      exact ⟨⟨_, cause, rfl⟩, rfl⟩

/-- A fix that is not kept is refused. -/
theorem error_of_updateFix {f : Fix} {e : Fault} (h : exec (updateFix f) w = (.error e, w')) :
    (e.isPrecondition ∧ w' = w) ∨ (∃ p cause, e = .io p cause) ∧ w' =
      { w with store := { w.store with records := (Request.updateFix f).left w.store.records } } := by
  rw [updateFix, Work.exec_bind, exec_current] at h
  simp only at h
  rw [Work.exec_bind, Work.exec_ofExcept] at h
  rw [show (Request.updateFix f).left w.store.records =
    ((Request.updateFix f).told w.store.records).2 from rfl, Request.told]
  cases hupdate : w.store.records.updateFix f with
  | ok r =>
    rw [hupdate] at h
    exact Or.inr (FailsWith.set (failsWith_persistFixes _) e w' h)
  | error fault =>
    rw [hupdate] at h
    cases h
    rw [Records.updateFix] at hupdate
    split at hupdate
    · cases hupdate
    · cases hupdate
      exact Or.inl ⟨rfl, rfl⟩

/-- A request that changes the records is refused, or a file could not be written. -/
theorem error_of_answer {q : Request} (hq : q.Mutates) {e : Fault}
    (h : exec q.answer w = (.error e, w')) :
    (e.isPrecondition ∧ w' = w) ∨ (∃ p cause, e = .io p cause) ∧
      w' = { w with store := { w.store with records := q.left w.store.records } } := by
  cases q with
  | saveIssues issues => exact Or.inr ((failsWith_saveIssues w issues).map _ e w' h)
  | deleteIssue id => exact Or.inr (((failsWith_deleteIssues w [id]).then_pure _).map _ e w' h)
  | deleteIssues ids => exact Or.inr ((failsWith_deleteIssues w ids).map _ e w' h)
  | saveFix fix => exact Or.inr ((failsWith_saveFix w fix).map _ e w' h)
  | updateFix fix => exact error_of_updateFix (exec_of_map_error h)
  | deleteFix id => exact Or.inr ((failsWith_deleteFix w id).map _ e w' h)
  | append a => exact Or.inr ((failsWith_append w a).map _ e w' h)
  | _ => exact hq.elim

/-! ## Opening the store again -/

/-- What the operation does has nothing to do with the store. -/
def Storeless {α : Type} (x : Work α) : Prop := ∀ (w : Workspace) (s : Store),
  exec x { w with store := s } = ((exec x w).1, { (exec x w).2 with store := s })

namespace Storeless

variable {α β : Type} {x : Work α} {f : α → Work β}

theorem pure (a : α) : Storeless (pure a) := fun _ _ => rfl

theorem throw (e : Fault) : Storeless (throw e : Work α) := fun _ _ => rfl

theorem bind (hx : Storeless x) (hf : ∀ a, Storeless (f a)) : Storeless (x >>= f) := by
  intro w s
  rw [Work.exec_bind, Work.exec_bind, hx w s]
  cases hexec : exec x w with
  | mk result w₁ =>
    cases result with
    | ok a => exact hf a w₁ s
    | error e => rfl

theorem tree : Storeless Work.tree := fun _ _ => rfl

theorem changing (p : Path) (f : FileTree → Except IoError FileTree) :
    Storeless (Work.changing p f) := by
  intro w s
  rw [Work.exec_changing, Work.exec_changing]
  cases f w.tree <;> rfl

theorem load {α : Type} (p : Path) (read? : Data → Option α) : Storeless (load p read?) := by
  refine .bind .tree fun t => ?_
  split
  · exact .pure _
  · exact .throw _
  · split
    · exact .pure _
    · split
      · exact .pure _
      · exact .throw _

theorem loadTrail (p : Path) : Storeless (loadTrail p) := by
  refine .bind .tree fun t => ?_
  split
  · exact .pure _
  · exact .throw _
  · exact .pure _

end Storeless

/-- What the operation gives has nothing to do with the store. -/
def Blind {α : Type} (x : Work α) : Prop :=
  ∀ (w : Workspace) (s : Store), (exec x { w with store := s }).1 = (exec x w).1

theorem Storeless.then {α β : Type} {x : Work α} {f : α → Work β} (hx : Storeless x)
    (hf : ∀ a, Blind (f a)) : Blind (x >>= f) := by
  intro w s
  rw [Work.exec_bind, Work.exec_bind, hx w s]
  cases hexec : exec x w with
  | mk result w₁ =>
    cases result with
    | ok a => exact hf a w₁ s
    | error e => rfl

/-- Whatever follows, what a store that is opened gives does not depend on the one before it. -/
theorem blind_openAt {α : Type} (dir : Path) (x : Work α) : Blind (openAt dir >>= fun _ => x) := by
  have hopened : ∀ r, Blind (modify (fun w => { w with store := ⟨some dir, r⟩ }) >>= fun _ => x) :=
    fun r w s => by rw [Work.exec_bind, Work.exec_bind, Work.exec_modify, Work.exec_modify]
  simp only [openAt, bind_assoc]
  exact (Storeless.changing _ _).then fun _ => (Storeless.changing _ _).then fun _ =>
    (Storeless.load _ _).then fun _ => (Storeless.load _ _).then fun _ =>
      (Storeless.loadTrail _).then fun _ => hopened _

/-! ## What is answered afterwards -/

/-- After a request that failed, a store that is opened again gives what it would have given before.
The open one answers as before if the request was refused or was to add a line. Otherwise it answers
as though the change had been written. -/
theorem reads_of_failed {q : Request} (hq : q.Mutates) {e : Fault}
    (h : exec q.answer w = (.error e, w')) :
    (∀ {α : Type} (dir : Path) (x : Work α), (exec (openAt dir >>= fun _ => x) w').1 =
      (exec (openAt dir >>= fun _ => x) w).1) ∧
    (e.isPrecondition ∨ q.Appends → ∀ p : Request, p.Looks →
      (exec p.answer w').1 = (exec p.answer w).1) ∧
    (¬ e.isPrecondition → ¬ q.Appends → ∀ p : Request, p.Looks →
      (exec p.answer w').1 = (p.told (q.told w.store.records).2).1) := by
  rcases error_of_answer hq h with ⟨hrefused, rfl⟩ | ⟨⟨path, cause, rfl⟩, rfl⟩
  · exact ⟨fun _ _ => rfl, fun _ _ _ => rfl, fun hnot => absurd hrefused hnot⟩
  · refine ⟨fun dir x => blind_openAt dir x _ _, ?_, ?_⟩
    · rintro (hrefused | happend) p hp
      · cases hrefused
      · cases q with
        | append a => rw [Request.exec_look hp, Request.exec_look hp]; rfl
        | _ => exact happend.elim
    · intro _ happend p hp
      rw [Request.exec_look hp]
      cases q with
      | append a => exact absurd trivial happend
      | _ => rfl

/-- A fix is kept in memory although a directory stands where its file is to be written. -/
theorem exec_saveFix_obstructed {dir : Path} {place : Place} (hhome : w.store.home = some dir)
    (hdisk : w.disk.Willing) (hopens : w.tree.Opens dir place)
    (hdir : w.tree.get? (place ++ [fixesFile]) = some .directory) (f : Fix) :
    exec (saveFix f) w = (.error (.io (dir.join fixesFile) .isDirectory),
      { w with store := { w.store with records := w.store.records.saveFix f } }) := by
  have hproper : Path.Proper fixesFile := proper_of_mem_files (by simp [files])
  have hwrite : ∀ bytes, w.tree.write (dir.join fixesFile) bytes = .error .isDirectory := by
    intro bytes
    simp only [FileTree.write, hopens.placeFor hproper, bind, Except.bind]
    exact if_pos hdir
  rw [saveFix, Work.exec_bind, exec_current]
  simp only
  rw [Work.exec_bind, exec_setRecords]
  simp only
  rw [persistFixes, Work.exec_bind, exec_current]
  simp only
  rw [persist, Work.exec_bind, Work.exec_get]
  simp only [hhome]
  rw [Work.write, Work.exec_bind, Work.exec_get]
  simp only [hwrite, hdisk _ _ _ _]
  rfl

/-- A store in a directory in which, since it was opened, a directory was made where the file of the
fixes is to be written. -/
def obstructed : Workspace where
  tree := { entries := [(["s"], .directory), (["s", fixesFile], .directory)] }
  store := ⟨some ⟨"/s"⟩, {}⟩

/-- A fix that waits to be confirmed. -/
def waiting : Fix where
  id := "fix-1"
  issueId := "issue-1"
  platform := .web
  template := "strict-equality"
  title := "Use strict equality"
  description := ""
  confidence := 85
  file := ⟨"/p/a.js"⟩
  line := 1
  replacedCode := "if (a == b)"
  suggestedCode := "if (a === b)"
  diff := ""
  createdAt := ⟨1700000000, 0⟩

/-- The fault of that store. -/
def inTheWay : Fault := .io (Path.join ⟨"/s"⟩ fixesFile) .isDirectory

theorem exec_waiting : exec (Request.saveFix waiting).answer obstructed =
    (.error inTheWay, { obstructed with store := ⟨some ⟨"/s"⟩, { fixes := [waiting] }⟩ }) := by
  have hopens : obstructed.tree.Opens ⟨"/s"⟩ ["s"] := by
    have hparts : (⟨"/s"⟩ : Path).parts = [.root, .name "s"] := by decide
    constructor
    · rw [hparts]
      exact .root (.enter (e := .directory) rfl rfl (by simp) .done)
    · rfl
  rw [Request.answer, Work.exec_map, exec_saveFix_obstructed rfl Disk.willing_default hopens rfl]
  rfl

/-- The fix that was not written is found in the open store, and a store that is opened on the
directory fails as it would have before. -/
theorem reads_of_failed_obstructed : ∃ w',
    exec (Request.saveFix waiting).answer obstructed = (.error inTheWay, w') ∧
      (exec (Request.fix? "fix-1").answer w').1 = .ok (.fix (some waiting)) ∧
      (exec (openAt ⟨"/s"⟩ >>= fun _ => (Request.fix? "fix-1").answer) w').1 =
        (exec (openAt ⟨"/s"⟩ >>= fun _ => (Request.fix? "fix-1").answer) obstructed).1 := by
  obtain ⟨hopened, -, hread⟩ := reads_of_failed (q := .saveFix waiting) trivial exec_waiting
  exact ⟨_, exec_waiting, hread (by decide) id (.fix? "fix-1") trivial, hopened _ _⟩

/-- An open store may answer otherwise after a request that failed. -/
theorem not_reads_of_failed : ¬ ∀ (w w' : Workspace) (q p : Request) (e : Fault),
    w.store.home ≠ none → q.Mutates → exec q.answer w = (.error e, w') → p.Looks →
      (exec p.answer w').1 = (exec p.answer w).1 := by
  intro hall
  have hsame := hall _ _ (.saveFix waiting) (.fix? "fix-1") _ (by simp [obstructed]) trivial
    exec_waiting trivial
  cases hsame

end Mend.Store
