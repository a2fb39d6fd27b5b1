import Mend.Proofs.Patch.Calls
import Mend.Proofs.Remediation.Refusal

/-!
# Operations that the store did not keep

A file is patched, or its copy is written back, before the store is told. Where the file cannot be
patched the operation fails and the file stays as it was. Where the store cannot be told any more,
the operation fails as well, but the file stays as it is now (`Patch.Call.HalfDone`), and there is
no other way in which an operation that fails changes a file (`Service.missed_or_halfDone`).

A store whose directory is gone fails so (`Service.exec_apply_unchecking`): a text has become
another one, and its fix is still confirmed.
-/

namespace Mend

open Work (exec)

/-! ## Files that are left alone -/

/-- The places have the bytes that they had, but for those of `changed`. -/
def FileTree.Untouched (changed : Place → Prop) (t t' : FileTree) : Prop :=
  ∀ q, ¬ changed q → t'.bytes? q = t.bytes? q

namespace FileTree.Untouched

variable {changed changed' : Place → Prop} {t t' t'' : FileTree}

theorem refl (changed : Place → Prop) (t : FileTree) : Untouched changed t t := fun _ _ => rfl

theorem trans (h : Untouched changed t t') (h' : Untouched changed' t' t'') :
    Untouched (fun q => changed q ∨ changed' q) t t'' := by
  intro q hq
  rw [not_or] at hq
  rw [h' q hq.2, h q hq.1]

theorem mono (h : Untouched changed t t') (hchanged : ∀ q, changed q → changed' q) :
    Untouched changed' t t' := fun q hq => h q fun hc => hq (hchanged q hc)

/-- Something was put at a place. -/
theorem set {place : Place} (hplace : place ≠ []) (hchanged : changed place) (t : FileTree)
    (e : Entry) : Untouched changed t (t.set place e) := by
  intro q hq
  have hne : q ≠ place := by
    rintro rfl
    exact hq hchanged
  rw [FileTree.bytes?, get?_set t hplace, if_neg hne, FileTree.bytes?]

end FileTree.Untouched

/-! ## Calls of an applier -/

/-- Nothing is at the place, and it has a name that the next copy of a source gets. -/
def Backup.Adds (w : Workspace) (source : Path) (q : Place) : Prop :=
  w.tree.get? q = none ∧
    ∃ r, ∃ n ∈ names source (w.tick w.clock) (Work.idOf w.serial), q = r ++ [n]

namespace Patch

/-- A call adds a copy or its description at the place. -/
def Call.Adds (w : Workspace) : Call → Place → Prop
  | apply _ f => Backup.Adds w (knownAs w.tree f.file)
  | rollback .. => Nowhere

/-- A call that fails adds a copy at most. -/
theorem Call.Does.untouched {w w' : Workspace} {c : Call} {e : Fault}
    (h : c.Does w (.error e) w') (hw : w.tree.Grounded) (hfresh : c.Fresh w) :
    w.tree.Untouched (c.Adds w) w'.tree := by
  intro q hadds
  by_contra hne
  rcases (h.safe hw hfresh).others _ hne with ⟨hok, -⟩ | ⟨hnone, hcopy⟩
  · cases hok
  · cases c with
    | rollback => exact hcopy
    | apply a f =>
      obtain ⟨r, n, hn, -, hq⟩ := hcopy
      exact hadds ⟨hnone, r, n, hn, hq⟩

end Patch

/-! ## Telling the store -/

namespace Store

/-- The place is named like the file of the fixes, and the store has files. -/
def FixesAt (w : Workspace) (q : Place) : Prop :=
  w.store.home ≠ none ∧ ∃ dir, q = dir ++ [fixesFile]

/-- The audit trail leads to the place. -/
def TrailAt (w : Workspace) (q : Place) : Prop :=
  ∃ home, w.store.home = some home ∧ w.tree.destination (home.join applicationsFile) = .ok q

/-- A place at which the store may write what is done with a fix. -/
def Writes (w : Workspace) (q : Place) : Prop := TrailAt w q ∨ FixesAt w q

/-- The store has the records `r` now. Or one of its files could not be written, and it has the
records `r'`. -/
inductive Tried (w : Workspace) (changed : Place → Prop) (r r' : Records) :
    Except Fault Unit → Workspace → Prop
  | done {w'} (hstore : w'.store = { w.store with records := r })
      (htree : w.tree.Untouched changed w'.tree) : Tried w changed r r' (.ok ()) w'
  | fails {w' p cause} (hhome : w.store.home ≠ none)
      (hstore : w'.store = { w.store with records := r' })
      (htree : w.tree.Untouched changed w'.tree) : Tried w changed r r' (.error (.io p cause)) w'

theorem tried_persistFixes (w : Workspace) : ∃ result w', exec persistFixes w = (result, w') ∧
    Tried w (FixesAt w) w.store.records w.store.records result w' := by
  cases hhome : w.store.home with
  | none => exact ⟨_, _, exec_persistFixes_memory hhome, .done rfl (.refl _ _)⟩
  | some home =>
    rw [persistFixes, Work.exec_bind, exec_current]
    simp only
    rw [persist, Work.exec_bind, Work.exec_get]
    simp only [hhome]
    generalize (Json.pretty (.list (w.store.records.fixes.map Fix.toData))).toUTF8 = bytes
    rcases Work.exec_write (home.join fixesFile) bytes w with
      ⟨t, hwrite, -, hexec⟩ | ⟨p, cause, hexec, -⟩
    · obtain ⟨place, -, -, rfl⟩ :=
        FileTree.write_join_eq_ok (proper_of_mem_files (by simp [files])) hwrite
      exact ⟨_, _, hexec, .done rfl (.set (by simp) ⟨by simp [hhome], place, rfl⟩ _ _)⟩
    · exact ⟨_, _, hexec, .fails (by simp [hhome]) rfl (.refl _ _)⟩

/-- A fix that is kept is replaced in memory, whether that can be written or not. -/
theorem tried_updateFix {w : Workspace} {f : Fix} (hf : (w.store.records.fix? f.id).isSome) :
    ∃ result w', exec (updateFix f) w = (result, w') ∧
      Tried w (FixesAt w) (w.store.records.saveFix f) (w.store.records.saveFix f) result w' := by
  have hupdate : w.store.records.updateFix f = .ok (w.store.records.saveFix f) := if_pos hf
  rw [updateFix, Work.exec_bind, exec_current]
  simp only
  rw [Work.exec_bind, hupdate, Work.exec_ofExcept]
  simp only
  rw [Work.exec_bind, exec_setRecords]
  simp only
  obtain ⟨result, w', hexec, htried⟩ := tried_persistFixes
    { w with store := { w.store with records := w.store.records.saveFix f } }
  refine ⟨result, w', hexec, ?_⟩
  cases htried with
  | done hstore htree => exact .done hstore htree
  | fails hhome hstore htree => exact .fails hhome hstore htree

/-- A line is added to the file of the audit trail first. -/
theorem tried_append (w : Workspace) (a : Application) :
    ∃ result w', exec (append a) w = (result, w') ∧
      Tried w (TrailAt w) (w.store.records.append a) w.store.records result w' := by
  rw [append, Work.exec_bind, Work.exec_get]
  simp only
  cases hhome : w.store.home with
  | none => exact ⟨_, _, rfl, .done rfl (.refl _ _)⟩
  | some home =>
    simp only
    rw [Work.exec_bind, Work.exec_changing]
    cases happend : w.tree.append (home.join applicationsFile)
        (Json.compact a.toData ++ "\n").toUTF8 with
    | error cause => exact ⟨_, _, rfl, .fails (by simp [hhome]) rfl (.refl _ _)⟩
    | ok t =>
      obtain ⟨place, all, hplace, hproper, rfl⟩ := FileTree.append_eq_ok happend
      exact ⟨_, _, rfl, .done rfl (.set hproper ⟨home, hhome, hplace⟩ _ _)⟩

end Store

/-- The store was told of a line and of the fix as it is now, but one of its files could not be
written. In memory neither is kept, or both are. -/
structure Workspace.Unrecorded (w : Workspace) (line : Application) (f : Fix) (e : Fault)
    (w' : Workspace) : Prop where
  home : w.store.home ≠ none
  fault : ∃ p cause, e = .io p cause
  untouched : w.tree.Untouched (Store.Writes w) w'.tree
  records : w'.store.records = w.store.records ∨
    w'.store.records = (w.store.records.append line).saveFix f

namespace Patch.Call

/-- The call fails, and no bytes change but those of a copy where nothing was and those that the
store writes. -/
def Missed (w : Workspace) (c : Call) (w' : Workspace) : Prop :=
  ∃ fault w₁, exec c.perform w = (.error fault, w₁) ∧
    w.tree.Untouched (fun q => c.Adds w q ∨ Store.Writes w₁ q) w'.tree

/-- The call succeeds, but the store cannot write that down. -/
def HalfDone (w : Workspace) (c : Call) (r : Option Outcome) (line : Application) (f : Fix)
    (e : Fault) (w' : Workspace) : Prop :=
  ∃ w₁, exec c.perform w = (.ok r, w₁) ∧ w₁.store = w.store ∧ w₁.Unrecorded line f e w'

end Patch.Call

namespace Service

variable {w w' : Workspace}

/-- A line is added, and a fix that is kept is replaced, or the store has failed. -/
theorem exec_record {f : Fix} (hf : (w.store.records.fix? f.id).isSome) (line : Application) :
    ∃ result w', exec (do Store.append line; Store.updateFix f) w = (result, w') ∧
      w.tree.Untouched (Store.Writes w) w'.tree ∧
      ∀ e, result = .error e → w.Unrecorded line f e w' := by
  obtain ⟨result, w₁, hexec, htried⟩ := Store.tried_append w line
  rw [Work.exec_bind, hexec]
  cases htried with
  | fails hhome hstore htree =>
    have hwrites : w.tree.Untouched (Store.Writes w) w₁.tree := htree.mono fun _ => Or.inl
    refine ⟨_, w₁, rfl, hwrites, ?_⟩
    rintro _ ⟨⟩
    exact ⟨hhome, ⟨_, _, rfl⟩, hwrites, Or.inl (by rw [hstore])⟩
  | done hstore htree =>
    have hf₁ : (w₁.store.records.fix? f.id).isSome := by
      rw [hstore]
      exact hf
    obtain ⟨result, w₂, hexec, htried⟩ := Store.tried_updateFix hf₁
    have hboth : ∀ {t : FileTree}, w₁.tree.Untouched (Store.FixesAt w₁) t →
        w.tree.Untouched (Store.Writes w) t := fun ht =>
      (htree.trans ht).mono fun q hq => hq.imp_right fun hq => by
        rwa [Store.FixesAt, hstore] at hq
    refine ⟨result, w₂, hexec, ?_⟩
    cases htried with
    | done _ htree₂ => exact ⟨hboth htree₂, by simp⟩
    | fails hhome hstore₂ htree₂ =>
      refine ⟨hboth htree₂, ?_⟩
      rintro _ ⟨⟩
      rw [hstore] at hhome hstore₂
      exact ⟨hhome, ⟨_, _, rfl⟩, hboth htree₂, Or.inr (by rw [hstore₂])⟩

/-- What is done with a fix is written down at the next moment, or the store has failed. -/
theorem unrecorded_of_error (line : Time → Application) (f : Time → Fix)
    (hf : (w.store.records.fix? (f (w.tick w.clock)).id).isSome) {e : Fault}
    (h : exec (do
      let now ← Work.now
      Store.append (line now)
      Store.updateFix (f now)
      pure (f now)) w = (.error e, w')) :
    w.Unrecorded (line (w.tick w.clock)) (f (w.tick w.clock)) e w' := by
  obtain ⟨result, w₁, hexec, -, hfailed⟩ :=
    exec_record (w := { w with clock := w.tick w.clock }) hf (line (w.tick w.clock))
  have hmap : ∀ now, (do Store.append (line now); Store.updateFix (f now); pure (f now)) =
      (fun _ => f now) <$> (do Store.append (line now); Store.updateFix (f now)) := by
    intro now
    rw [map_eq_pure_bind, bind_assoc]
  simp only [hmap] at h
  rw [Work.exec_bind, Work.exec_now] at h
  simp only at h
  rw [Work.exec_map, hexec] at h
  obtain ⟨hresult, rfl⟩ := Prod.mk.inj h
  cases result with
  | ok => cases hresult
  | error e' =>
    obtain rfl := Except.error.inj hresult
    obtain ⟨hhome, hfault, htree, hrecords⟩ := hfailed _ rfl
    exact ⟨hhome, hfault, htree, hrecords⟩

theorem unrecorded_recordApplied {f : Fix} (hf : (w.store.records.fix? f.id).isSome)
    (hstatus : f.status = .confirmed) {outcome : Patch.Outcome} {e : Fault}
    (h : exec (recordApplied f outcome) w = (.error e, w')) :
    ∃ now, w.Unrecorded (appliedLine f outcome now) (applied f outcome now) e w' := by
  rw [recordApplied, Fix.transition_of_status hstatus, Work.exec_bind, Work.exec_ofExcept] at h
  exact ⟨_, unrecorded_of_error (appliedLine f outcome) (applied f outcome) hf h⟩

/-- To write down that a fix could not be applied touches no file but those of the store. -/
theorem untouched_recordFailed {f : Fix} (hf : (w.store.records.fix? f.id).isSome)
    (hstatus : f.status = .confirmed) (fault : Fault) :
    w.tree.Untouched (Store.Writes w) (exec (recordFailed f fault) w).2.tree := by
  obtain ⟨result, w', hexec, htree, -⟩ := exec_record
    (w := { w with clock := w.tick w.clock }) (f := failed f) hf
    (failedLine f fault (w.tick w.clock))
  have hdone : exec (recordFailed f fault) w = (result, w') := by
    rw [recordFailed, Fix.transition_of_status (e := .applyFailed) hstatus, Work.exec_bind,
      Work.exec_ofExcept]
    exact hexec
  rw [hdone]
  exact htree

theorem unrecorded_finishRollback {f : Fix} (hf : (w.store.records.fix? f.id).isSome)
    (hstatus : f.status = .applied) {backup : Path} {e : Fault}
    (h : exec (finishRollback f backup (.ok ())) w = (.error e, w')) :
    ∃ now, w.Unrecorded (rollbackLine f backup (.ok ()) now) (rolledBack f now) e w' := by
  rw [finishRollback, Fix.transition_of_status hstatus] at h
  exact ⟨_, unrecorded_of_error (rollbackLine f backup (.ok ())) (rolledBack f) hf h⟩

/-- To write down that a copy could not be written back touches no file but the audit trail. -/
theorem untouched_finishRollback (w : Workspace) (f : Fix) (backup : Path) (fault : Fault) :
    w.tree.Untouched (Store.Writes w) (exec (finishRollback f backup (.error fault)) w).2.tree := by
  obtain ⟨result, w₁, hexec, htried⟩ := Store.tried_append { w with clock := w.tick w.clock }
    (rollbackLine f backup (.error fault) (w.tick w.clock))
  rw [finishRollback, Work.exec_bind, Work.exec_now]
  simp only
  rw [Work.exec_bind, hexec]
  cases htried with
  | done _ htree => exact htree.mono fun _ => Or.inl
  | fails _ _ htree => exact htree.mono fun _ => Or.inl

/-! ## Operations that fail -/

/-- What is done with a fix fails before anything is touched, or with the fix that was found. -/
theorem error_of_fix {α : Type} {id : String} {event : FixEvent} {g : Fix → Work α} {e : Fault}
    (h : exec (fix id >>= fun f => Work.ofExcept (f.ensure event) >>= fun _ => g f) w =
      (.error e, w')) :
    w' = w ∨ ∃ f, w.store.records.fix? id = some f ∧ f.status = event.needs ∧
      exec (g f) w = (.error e, w') := by
  rw [Work.exec_bind] at h
  cases hfix : w.store.records.fix? id with
  | none =>
    rw [exec_fix_of_none hfix] at h
    exact Or.inl (Prod.mk.inj h).2.symm
  | some f =>
    rw [exec_fix_of_some hfix] at h
    simp only at h
    rw [Work.exec_bind, Work.exec_ofExcept] at h
    by_cases hstatus : f.status = event.needs
    · rw [Fix.ensure_of_status hstatus] at h
      exact Or.inr ⟨f, rfl, hstatus, h⟩
    · obtain ⟨fault, hfault⟩ := Fix.ensure_of_ne hstatus
      rw [hfault] at h
      exact Or.inl (Prod.mk.inj h).2.symm

/-- A call does not forget the fix that it is made for. -/
theorem isSome_of_does {c : Patch.Call} {r : Except Fault (Option Patch.Outcome)} {id : String}
    {f : Fix} (h : c.Does w r w') (hf : w.store.records.fix? id = some f) :
    (w'.store.records.fix? f.id).isSome := by
  rw [h.store, (Records.fix?_eq_some hf).2, hf]
  rfl

theorem missed_or_halfDone_apply {s : Service} {id : String} {e : Fault} (hw : w.tree.Grounded)
    (hrep : w.Representable) (hback : w.disk.TakesBack)
    (hfresh : ∀ f, w.store.records.fix? id = some f →
      Backup.Fresh w (Patch.knownAs w.tree f.file)) (h : exec (s.apply id) w = (.error e, w')) :
    w' = w ∨ ∃ f, w.store.records.fix? id = some f ∧
      ((Patch.Call.apply s.applier f).Missed w w' ∨
        ∃ outcome now, (Patch.Call.apply s.applier f).HalfDone w (some outcome)
          (appliedLine f outcome now) (applied f outcome now) e w') := by
  refine (error_of_fix h).imp_right ?_
  rintro ⟨f, hfix, hstatus, h⟩
  refine ⟨f, hfix, ?_⟩
  have hdoes := Patch.Call.does_apply hw hrep hback s.applier f (hfresh f hfix)
  rw [Patch.Call.Missed]
  simp only [Patch.Call.HalfDone]
  rw [Patch.Call.perform, Work.exec_map] at hdoes ⊢
  rw [Work.exec_bind, Work.exec_attempt] at h
  generalize exec (s.applier.apply f) w = called at h hdoes ⊢
  obtain ⟨result, w₁⟩ := called
  have hf₁ := isSome_of_does hdoes hfix
  cases result with
  | ok outcome =>
    obtain ⟨now, hunrecorded⟩ := unrecorded_recordApplied hf₁ hstatus h
    exact Or.inr ⟨outcome, now, w₁, rfl, hdoes.store, hunrecorded⟩
  | error fault =>
    have hrecorded := untouched_recordFailed hf₁ hstatus fault
    have hafter : (exec (recordFailed f fault) w₁).2 = w' := by
      simp only at h
      rw [Work.exec_bind] at h
      split at h <;> simp_all
    rw [hafter] at hrecorded
    exact Or.inl ⟨fault, w₁, rfl, (hdoes.untouched hw (hfresh f hfix)).trans hrecorded⟩

theorem missed_or_halfDone_rollback {id : String} {e : Fault} (hw : w.tree.Grounded)
    (h : exec (rollback id) w = (.error e, w')) :
    w' = w ∨ ∃ f backup, w.store.records.fix? id = some f ∧ f.backupPath = some backup ∧
      ((Patch.Call.rollback f.file backup).Missed w w' ∨
        ∃ now, (Patch.Call.rollback f.file backup).HalfDone w none
          (rollbackLine f backup (.ok ()) now) (rolledBack f now) e w') := by
  rcases error_of_fix h with hsame | ⟨f, hfix, hstatus, h⟩
  · exact Or.inl hsame
  cases hbackup : f.backupPath with
  | none =>
    rw [hbackup] at h
    exact Or.inl (Prod.mk.inj h).2.symm
  | some backup =>
    obtain ⟨later, hlook, -⟩ := exec_hasLaterFix_iff w f
    rw [hbackup] at h
    simp only at h
    rw [Work.exec_bind, hlook] at h
    cases later with
    | true => exact Or.inl (Prod.mk.inj h).2.symm
    | false =>
      refine Or.inr ⟨f, backup, hfix, hbackup, ?_⟩
      have hdoes := Patch.Call.does_rollback w f.file backup
      rw [Patch.Call.Missed]
      simp only [Patch.Call.HalfDone]
      rw [Patch.Call.perform, Work.exec_map] at hdoes ⊢
      replace h : exec ((Patch.Applier.rollback f.file backup).attempt >>=
          finishRollback f backup) w = (.error e, w') := h
      rw [Work.exec_bind, Work.exec_attempt] at h
      generalize exec (Patch.Applier.rollback f.file backup) w = called at h hdoes ⊢
      obtain ⟨result, w₁⟩ := called
      cases result with
      | ok =>
        obtain ⟨now, hunrecorded⟩ :=
          unrecorded_finishRollback (isSome_of_does hdoes hfix) hstatus h
        exact Or.inr ⟨now, w₁, rfl, hdoes.store, hunrecorded⟩
      | error fault =>
        have hrecorded := untouched_finishRollback w₁ f backup fault
        simp only at h
        rw [h] at hrecorded
        exact Or.inl ⟨fault, w₁, rfl, (hdoes.untouched hw trivial).trans hrecorded⟩

/-- An operation that fails leaves the files of a project alone, unless the store has failed after
a file was written. It is refused, and everything is as it was. Or the fix is not applied or not
rolled back, and no bytes change but those of the store's files and of a copy that was not there
before. Or it was applied or rolled back, and a store that keeps its records in files could not
write that down. In memory the fix is then as it was before, or as it would be had the operation
succeeded.

The disk is one that takes the old bytes of a file back after new ones: a text that fails its check
stays where it does not, whatever the store does (`Patch.Applier.exec_applyTo`). -/
theorem missed_or_halfDone {id : String} {e : Fault} (hw : w.tree.Grounded)
    (hrep : w.Representable) (hback : w.disk.TakesBack)
    (hfresh : ∀ f, w.store.records.fix? id = some f →
      Backup.Fresh w (Patch.knownAs w.tree f.file)) :
    (∀ s : Service, exec (s.apply id) w = (.error e, w') →
      w' = w ∨ ∃ f, w.store.records.fix? id = some f ∧
        ((Patch.Call.apply s.applier f).Missed w w' ∨
          ∃ outcome now, (Patch.Call.apply s.applier f).HalfDone w (some outcome)
            (appliedLine f outcome now) (applied f outcome now) e w')) ∧
    (exec (rollback id) w = (.error e, w') →
      w' = w ∨ ∃ f backup, w.store.records.fix? id = some f ∧ f.backupPath = some backup ∧
        ((Patch.Call.rollback f.file backup).Missed w w' ∨
          ∃ now, (Patch.Call.rollback f.file backup).HalfDone w none
            (rollbackLine f backup (.ok ()) now) (rolledBack f now) e w')) :=
  ⟨fun _ h => missed_or_halfDone_apply hw hrep hback hfresh h,
    fun h => missed_or_halfDone_rollback hw h⟩

/-! ## A store whose directory is gone -/

/-- A text with a confirmed fix, and a store whose directory is gone. -/
def homeless : Workspace :=
  { Patch.noted with
    store := { home := some ⟨"/gone"⟩, records := { fixes := [Patch.rewording] } } }

/-- A service that checks nothing. -/
def unchecking : Service := { root := ⟨"/"⟩, applier := Patch.noting }

theorem representable_homeless : homeless.Representable :=
  ⟨Patch.representable_noted.clock, Patch.representable_noted.size⟩

theorem fresh_homeless (f : Fix) (hf : homeless.store.records.fix? "fix" = some f) :
    Backup.Fresh homeless (Patch.knownAs homeless.tree f.file) := by
  obtain rfl : Patch.rewording = f := Option.some.inj hf
  exact Patch.fresh_noted

/-- The fault of a store whose directory is gone. -/
def lost : Fault := .io (Path.join ⟨"/gone"⟩ Store.applicationsFile) .notFound

theorem exec_append_gone {w : Workspace} (hhome : w.store.home = some ⟨"/gone"⟩)
    (hgone : w.tree.get? ["gone"] = none) (a : Application) :
    exec (Store.append a) w = (.error lost, w) := by
  have hproper : Path.Proper Store.applicationsFile :=
    Store.proper_of_mem_files (by simp [Store.files])
  have hparts : (⟨"/gone"⟩ : Path).parts = [.root, .name "gone"] := by decide
  have happend : ∀ bytes, w.tree.append (Path.join ⟨"/gone"⟩ Store.applicationsFile) bytes =
      .error .notFound := by
    intro bytes
    rw [FileTree.append, FileTree.destination, Path.text_join_ne_empty _ hproper,
      Path.parts_join _ hproper, hparts]
    simp only [List.cons_append, List.nil_append, FileTree.follow, FileTree.get?_nil, hgone]
    rfl
  rw [Store.append, Work.exec_bind, Work.exec_get]
  simp only [hhome]
  rw [Work.exec_bind, Work.exec_changing, happend]
  rfl

/-- The text is patched, and a copy is kept. -/
theorem exec_apply_homeless : ∃ outcome w₁,
    exec (Patch.noting.apply Patch.rewording) homeless = (.ok outcome, w₁) ∧
    w₁.store = homeless.store ∧ w₁.disk.Willing ∧ w₁.tree.Grounded ∧
    w₁.tree.FileAt ⟨"/a"⟩ ["a"] ∧
    w₁.tree.get? ["a"] = some (.file "y".toUTF8) ∧ w₁.tree.get? ["gone"] = none ∧
    exec (Backup.verifiedBytes outcome.backup.path) w₁ = (.ok "x".toUTF8, w₁) := by
  have hknown : Patch.knownAs homeless.tree ⟨"/a"⟩ = ⟨"/a"⟩ :=
    Patch.knownAs_of_fileAt Patch.grounded_noted Patch.fileAt_noted
  have hfresh : Backup.Fresh homeless ⟨"/a"⟩ := by
    rw [← hknown]
    exact Patch.fresh_noted
  obtain ⟨b, w₁, hcopy, -⟩ := Backup.exec_create_ok (w := homeless) Disk.willing_default
    Patch.makeDirectories_noted Patch.opens_noted (fun n hn => hfresh n hn ["b"]) "x".toUTF8
  obtain ⟨outcome, hexec⟩ := Patch.noting.exec_applyTo_ok (w := homeless) Patch.grounded_noted
    Disk.willing_default Patch.fileAt_noted hfresh.unlinked Patch.readText_noted hcopy
    Patch.rewording (Or.inl rfl)
  obtain ⟨r, w₁', hexec', hprecedes, hstore, hcases⟩ := Patch.noting.exec_applyTo (w := homeless)
    Patch.grounded_noted representable_homeless Patch.fileAt_noted hfresh.unlinked Patch.rewording
  obtain ⟨rfl, rfl⟩ := Prod.mk.inj (hexec'.symm.trans hexec)
  obtain ⟨e, he, -⟩ | hcases := hcases
  · cases he
  obtain ⟨_, old, new, ⟨⟩, hlaid, hnew⟩ :=
    hcases.resolve_right fun h => h.1 Disk.willing_default.takesBack
  have hpatched : (Patch.patched Patch.noting.locator "x".toList Patch.rewording
      (Patch.languageOf ⟨"/a"⟩)).1 = "y".toList := by decide +kernel
  have hafter : new = "y".toUTF8 := by
    rw [hnew "x" Patch.readText_noted, hpatched, String.ofList_toList]
  have hbefore : old = "x".toUTF8 := by
    have hold : homeless.tree.get? ["a"] = some (.file "x".toUTF8) := rfl
    simpa [hold, eq_comm] using hlaid.before
  obtain ⟨spot, n, hpath, -, hkept⟩ := hlaid.kept
  refine ⟨outcome, _, ?_, hstore, hprecedes.disk ▸ Disk.willing_default,
    Patch.grounded_noted.becomes hlaid.tree, Patch.fileAt_noted.becomes hlaid.tree, ?_, ?_, ?_⟩
  · rw [Patch.Applier.apply, Work.exec_bind, Patch.exec_target]
    simp only
    rw [show Patch.rewording.file = ⟨"/a"⟩ from rfl, hknown]
    exact hexec
  · rw [hlaid.after, hafter]
  · exact hlaid.get?_eq_none (r := []) rfl (by decide)
      (fun htaken => absurd htaken.isName.reserved (by decide)) (by decide)
  · rw [← hbefore]
    exact Backup.Kept.verifiedBytes ⟨_, spot, n, hpath, hkept⟩

/-- Applying fails, but the text has become another one. Its fix is still confirmed. -/
theorem exec_apply_unchecking : ∃ w', exec (unchecking.apply "fix") homeless = (.error lost, w') ∧
    w'.tree.read ⟨"/a"⟩ = .ok "y".toUTF8 ∧ w'.tree.bytes? ["a"] = some "y".toUTF8 ∧
    w'.store = homeless.store := by
  obtain ⟨outcome, w₁, hexec, hstore, -, hgrounded, hp, hget, hgone, -⟩ := exec_apply_homeless
  have happend := exec_append_gone (w := { w₁ with clock := w₁.tick w₁.clock })
    (by rw [hstore]; rfl) hgone (appliedLine Patch.rewording outcome (w₁.tick w₁.clock))
  refine ⟨{ w₁ with clock := w₁.tick w₁.clock }, ?_, hp.read hgrounded hget, ?_, hstore⟩
  · have hrecord : exec (recordApplied Patch.rewording outcome) w₁ =
        (.error lost, { w₁ with clock := w₁.tick w₁.clock }) := by
      rw [recordApplied, Fix.transition_of_status rfl, Work.exec_bind, Work.exec_ofExcept]
      simp only
      rw [Work.exec_bind, Work.exec_now]
      exact Work.exec_bind_error happend
    exact (exec_apply_of_patched unchecking (f := Patch.rewording) rfl rfl hexec).trans hrecord
  · simp [FileTree.bytes?, hget]

/-- Rolling back fails, but the text is what it was. Its fix is still applied. -/
theorem exec_rollback_gone : ∃ w f w', w.store = ⟨some ⟨"/gone"⟩, { fixes := [f] }⟩ ∧
    f.status = .applied ∧ exec (rollback f.id) w = (.error lost, w') ∧
    w.tree.read f.file = .ok "y".toUTF8 ∧ w'.tree.read f.file = .ok "x".toUTF8 ∧
    w'.store = w.store := by
  obtain ⟨outcome, w₁, -, -, hdisk, hgrounded, hp, hget, hgone, hbytes⟩ := exec_apply_homeless
  generalize hf : applied Patch.rewording outcome ⟨1, 0⟩ = f
  generalize hw : { w₁ with store := ⟨some ⟨"/gone"⟩, { fixes := [f] }⟩ } = w
  have hfile : f.file = ⟨"/a"⟩ := by rw [← hf]; rfl
  have hbackup : f.backupPath = some outcome.backup.path := by rw [← hf]; rfl
  have hstatus : f.status = .applied := by rw [← hf]; rfl
  have hstore : w.store = ⟨some ⟨"/gone"⟩, { fixes := [f] }⟩ := by rw [← hw]
  have htree : w.tree = w₁.tree := by rw [← hw]
  -- The copy is written back.
  have hintact : Backup.Intact w₁ w outcome.backup.path := ⟨by rw [htree], by rw [htree]⟩
  have hbytes' := hintact.verifiedBytes hbytes
  rw [← htree] at hgrounded hp hget hgone
  obtain ⟨w₂, hback, hrestored⟩ := Patch.restored_of_verifiedBytes hgrounded hbytes'
    (show Patch.Target w.tree ⟨"/a"⟩ ["a"] by
      rw [Patch.Target, Patch.knownAs_of_fileAt hgrounded hp, hp.placeFor hgrounded])
    (by simp [hget]) (Disk.Willing.takes (by rwa [← hw]) _ _)
  have hstore₂ : w₂.store = w.store := by
    have hdoes := Patch.Call.does_rollback w ⟨"/a"⟩ outcome.backup.path
    rw [Patch.Call.perform, Work.exec_map, hback] at hdoes
    exact hdoes.store
  -- The line cannot be added.
  have hgone₂ : w₂.tree.get? ["gone"] = none := by rw [hrestored.others _ (by simp), hgone]
  have happend := exec_append_gone (w := { w₂ with clock := w₂.tick w₂.clock })
    (by rw [hstore₂, hstore]) hgone₂
    (rollbackLine f outcome.backup.path (.ok ()) (w₂.tick w₂.clock))
  refine ⟨w, f, { w₂ with clock := w₂.tick w₂.clock }, hstore, hstatus, ?_, ?_, ?_, hstore₂⟩
  · have hfound : w.store.records.fix? f.id = some f := by simp [hstore, Records.fix?]
    obtain ⟨later, hlook, hlater⟩ := exec_hasLaterFix_iff w f
    obtain rfl : later = false := by
      rw [Bool.eq_false_iff, Ne, hlater]
      rintro ⟨g, hg, -, -, hid, -⟩
      rw [hstore, List.mem_singleton] at hg
      exact hid (by rw [hg])
    rw [rollback, Work.exec_bind, exec_fix_of_some hfound]
    simp only
    rw [Work.exec_bind, Fix.ensure_of_status hstatus, Work.exec_ofExcept]
    simp only [hbackup]
    rw [Work.exec_bind, hlook]
    have hfinish : exec (finishRollback f outcome.backup.path (.ok ())) w₂ =
        (.error lost, { w₂ with clock := w₂.tick w₂.clock }) := by
      rw [finishRollback, Work.exec_bind, Work.exec_now]
      exact Work.exec_bind_error happend
    have hattempt : exec (Patch.Applier.rollback f.file outcome.backup.path).attempt w =
        (.ok (.ok ()), w₂) := by
      rw [Work.exec_attempt, hfile, hback]
    show exec ((Patch.Applier.rollback f.file outcome.backup.path).attempt >>=
      finishRollback f outcome.backup.path) w = _
    rw [Work.exec_bind, hattempt]
    exact hfinish
  · rw [hfile]
    exact hp.read hgrounded hget
  · rw [hfile]
    exact hrestored.read (by simp [hget])

/-- A fix is applied, and the store fails. -/
theorem missed_or_halfDone_homeless : ∃ w' outcome now,
    exec (unchecking.apply "fix") homeless = (.error lost, w') ∧
    (Patch.Call.apply Patch.noting Patch.rewording).HalfDone homeless (some outcome)
      (appliedLine Patch.rewording outcome now) (applied Patch.rewording outcome now) lost w' := by
  obtain ⟨w', hexec, -, hbytes, -⟩ := exec_apply_unchecking
  rcases (missed_or_halfDone (w := homeless) Patch.grounded_noted representable_homeless
    Disk.willing_default.takesBack fresh_homeless).1 unchecking hexec with rfl | ⟨f, hf, hmissed | hhalf⟩
  · rw [show homeless.tree.bytes? ["a"] = some "x".toUTF8 from rfl] at hbytes
    exact absurd hbytes (by decide)
  · obtain rfl : Patch.rewording = f := Option.some.inj hf
    obtain ⟨outcome, w₁, happlied, -⟩ := exec_apply_homeless
    obtain ⟨fault, w₂, hfailed, -⟩ := hmissed
    rw [show unchecking.applier = Patch.noting from rfl, Patch.Call.perform, Work.exec_map,
      happlied] at hfailed
    cases hfailed
  · obtain rfl : Patch.rewording = f := Option.some.inj hf
    obtain ⟨outcome, now, hhalf⟩ := hhalf
    exact ⟨w', outcome, now, hexec, hhalf⟩

/-- An operation that fails may leave a file of the project changed. Applying does where a text is
patched and the store is gone, and so does rolling back. -/
theorem not_untouched_of_error :
    (¬ ∀ (s : Service) (w w' : Workspace) (id : String) (f : Fix) (e : Fault),
      w.store.records.fix? id = some f → exec (s.apply id) w = (.error e, w') →
        w'.tree.read f.file = w.tree.read f.file) ∧
    ¬ ∀ (w w' : Workspace) (id : String) (f : Fix) (e : Fault),
      w.store.records.fix? id = some f → exec (rollback id) w = (.error e, w') →
        w'.tree.read f.file = w.tree.read f.file := by
  have hne : (.ok "y".toUTF8 : Except IoError ByteArray) ≠ .ok "x".toUTF8 := by decide
  constructor
  · intro hall
    obtain ⟨w', hexec, hread, -⟩ := exec_apply_unchecking
    have hbefore : homeless.tree.read Patch.rewording.file = .ok "x".toUTF8 :=
      Patch.fileAt_noted.read Patch.grounded_noted rfl
    exact hne (hread.symm.trans ((hall _ _ _ _ Patch.rewording _ rfl hexec).trans hbefore))
  · intro hall
    obtain ⟨w, f, w', hstore, -, hexec, hbefore, hafter, -⟩ := exec_rollback_gone
    have hfound : w.store.records.fix? f.id = some f := by simp [hstore, Records.fix?]
    exact hne (hbefore.symm.trans ((hall _ _ _ f _ hfound hexec).symm.trans hafter))

end Service

end Mend
