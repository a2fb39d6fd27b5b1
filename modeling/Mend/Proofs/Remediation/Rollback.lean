import Mend.Proofs.Remediation.Apply

/-!
# What rolling back does

Only the newest fix of a file can be rolled back (`Workspace.Newest`); rolling back any other fix is
refused (`Service.exec_rollback`). Rolling back the newest one writes its copy back and touches no
other file (`Workspace.Lifted`), or fails because the copy is not what was copied or the disk does
not take it (`Service.exec_rollback_newest`). Both ways add one line to the audit trail.
-/

namespace Mend

open Work (exec)

/-- The fix is kept as one that is applied. -/
def Workspace.Applied (w : Workspace) (f : Fix) : Prop :=
  f ∈ w.store.records.fixes ∧ f.status = .applied

/-- The fix is applied, and no fix of the same file was applied after it. -/
def Workspace.Newest (w : Workspace) (f : Fix) : Prop :=
  w.Applied f ∧
    ∀ g, w.Applied g → g.file = f.file → Service.laterThan g.appliedAt f.appliedAt = false

namespace Service

/-- The fix as it is kept once it is rolled back. -/
def rolledBack (f : Fix) (now : Time) : Fix :=
  { f with status := .rolledBack, rolledBackAt := some now }

/-- The line of the audit trail for an attempt to roll back a fix. -/
def rollbackLine (f : Fix) (backup : Path) (result : Except Fault Unit) (now : Time) :
    Application :=
  { fixId := f.id
    action := .rollback
    success := result.isOk
    placement := f.placement
    backupPath := some backup
    error := match result with
      | .ok _ => none
      | .error e => some e.message
    appliedAt := now }

end Service

/-- The fix was rolled back, and the file at a place has the bytes of its copy. Other files are as
they were, but for those of the store, and so are the other fixes. -/
structure Workspace.Lifted (w : Workspace) (f : Fix) (backup : Path) (now : Time) (place : Place)
    (bytes : ByteArray) (w' : Workspace) : Prop where
  turns : w.Turns (fun q => q = place ∨ Store.FileOf w q)
    (Records.put Fix.id (Service.rolledBack f now) w.store.records.fixes)
    [Service.rollbackLine f backup (.ok ()) now] w'
  fileAt : w.tree.FileAt f.file place
  after : w'.tree.get? place = some (.file bytes)

/-- Canonical paths with the same steps are the same. -/
theorem FileTree.FileAt.eq_of_same {t : FileTree} {p q : Path} {a b : Place} (hp : t.FileAt p a)
    (hq : t.FileAt q b) (h : p.same q = true) : p = q := by
  rw [Path.same, hp.parts_eq, hq.parts_eq, beq_iff_eq, List.cons_inj_right] at h
  have hab : a = b := List.map_injective_iff.mpr (fun _ _ h => Path.Part.name.inj h) h
  rw [hp.path_eq, hq.path_eq, hab]

theorem FileTree.FileAt.unique {t t' : FileTree} {p : Path} {a b : Place} (ha : t.FileAt p a)
    (hb : t'.FileAt p b) : a = b :=
  Path.ofPlace_inj ha.proper hb.proper (ha.path_eq.symm.trans hb.path_eq)

/-! ## Restoring -/

namespace Service

variable {w : Workspace}

/-- A copy is written back over a file, or it cannot be read or the disk refuses, and nothing
changes. -/
theorem exec_restore {p backup : Path} {r : Except Fault ByteArray} {place : Place} (hw : w.Steady)
    (hp : w.tree.FileAt p place) (hr : exec (Backup.verifiedBytes backup) w = (r, w)) :
    (∃ fault, exec (Patch.Applier.rollback p backup) w = (.error fault, w) ∧
        ∀ bytes, r = .ok bytes → ¬ w.Takes p bytes) ∨
      ∃ bytes t, r = .ok bytes ∧
        exec (Patch.Applier.rollback p backup) w = (.ok (), { w with tree := t }) ∧
        FileTree.Becomes (· = place) Nowhere w.tree t ∧ t.get? place = some (.file bytes) := by
  rw [Patch.Applier.rollback, Work.exec_bind, Patch.exec_target,
    Patch.knownAs_of_fileAt hw.grounded hp]
  simp only [Backup.restore]
  rw [Work.exec_bind, hr]
  cases r with
  | error fault => exact Or.inl ⟨fault, rfl, by simp⟩
  | ok bytes =>
    rcases Patch.exec_write_file hw.grounded hp bytes with
      ⟨t, -, -, hwrite, htree, hafter⟩ | ⟨refused, cause, hrefused, hnot⟩
    · exact Or.inr ⟨bytes, t, rfl, hwrite, htree, hafter⟩
    · refine Or.inl ⟨_, hrefused, ?_⟩
      rintro _ ⟨⟩
      exact hnot

/-! ## Rolling back -/

theorem laterThan_self (t : Option Time) : laterThan t t = false := by
  cases t <;> simp [laterThan, Time.before]

/-- Whether another fix of the same file was applied later. -/
theorem exec_hasLaterFix (hw : w.Sound) {f : Fix} (hf : f ∈ w.store.records.fixes) :
    ∃ b, exec (hasLaterFix f) w = (.ok b, w) ∧
      (b = true ↔ ∃ g, w.Applied g ∧ g.file = f.file ∧ laterThan g.appliedAt f.appliedAt = true) := by
  refine ⟨_, rfl, ?_⟩
  rw [List.any_eq_true]
  obtain ⟨place, hplace⟩ := (hw.fix_source f hf).fileAt
  constructor
  · rintro ⟨g, hg, hlater⟩
    obtain ⟨hg, haccepts⟩ := List.mem_filter.mp (List.mem_mergeSort.mp hg)
    simp only [FixFilter.accepts, Option.all_some, Option.all_none, Bool.and_true,
      Bool.and_eq_true, decide_eq_true_eq] at haccepts
    obtain ⟨place', hplace'⟩ := (hw.fix_source g hg).fileAt
    exact ⟨g, ⟨hg, haccepts.1⟩, hplace'.eq_of_same hplace haccepts.2,
      (Bool.and_eq_true_iff.mp hlater).2⟩
  · rintro ⟨g, hg, hfile, hlater⟩
    have hid : g.id ≠ f.id := by
      intro hid
      rw [hw.eq_of_id hg.1 hf hid, laterThan_self] at hlater
      cases hlater
    refine ⟨g, List.mem_mergeSort.mpr (List.mem_filter.mpr ⟨hg.1, ?_⟩), by simp [hid, hlater]⟩
    simp [FixFilter.accepts, hg.2, hfile, Path.same]

/-- What is left of a rollback once the copy was written back or could not be. -/
def finishRollback (f : Fix) (backup : Path) (result : Except Fault Unit) : Work Fix := do
  let now ← Work.now
  Store.append (rollbackLine f backup result now)
  Work.ofExcept result
  let fix ← Work.ofExcept (f.transition .rollBack)
  Store.updateFix { fix with rolledBackAt := some now }
  pure { fix with rolledBackAt := some now }

/-- The newest fix of a file gets as far as its copy. -/
theorem exec_rollback_eq (hw : w.Sound) {f : Fix} (hf : w.Newest f) {backup : Path}
    (hbackup : f.backupPath = some backup) :
    exec (rollback f.id) w =
      exec ((Patch.Applier.rollback f.file backup).attempt >>= finishRollback f backup) w := by
  obtain ⟨b, hlook, hb⟩ := exec_hasLaterFix hw hf.1.1
  have hlater : b = false := by
    rw [Bool.eq_false_iff, Ne, hb]
    rintro ⟨g, hg, hfile, hg'⟩
    rw [hf.2 g hg hfile] at hg'
    cases hg'
  rw [rollback, Work.exec_bind, exec_fix_of_some (hw.fix?_eq hf.1.1)]
  simp only
  rw [Work.exec_bind, Fix.ensure_of_status hf.1.2, Work.exec_ofExcept]
  simp only [hbackup]
  rw [Work.exec_bind, hlook, hlater]
  rfl

theorem exec_finishRollback_error (hw : w.Sound) (f : Fix) (backup : Path) (fault : Fault) :
    ∃ now w', exec (finishRollback f backup (.error fault)) w = (.error fault, w') ∧
      w.Turns (Store.FileOf w) w.store.records.fixes [rollbackLine f backup (.error fault) now] w' := by
  have hline : Store.Stores w (do
      let now ← Work.now
      Store.append (rollbackLine f backup (.error fault) now)) ()
      (w.store.records.append (rollbackLine f backup (.error fault) (w.tick w.clock))) :=
    .bind hw.toReady .now fun w₁ hw₁ h₁ => h₁ ▸ Store.stores_append hw₁ _
  obtain ⟨w', hexec, hmoves, hrecords⟩ := hline
  refine ⟨w.tick w.clock, w', ?_, ?_⟩
  · rw [Work.exec_bind, Work.exec_now] at hexec
    simp only at hexec
    rw [finishRollback, Work.exec_bind, Work.exec_now]
    simp only
    rw [Work.exec_bind, hexec]
    rfl
  · refine ⟨hw.of_moves hmoves (fun i hi => Or.inl ?_) (by rw [hrecords]; rfl), hmoves,
      by rw [hrecords]; rfl, by rw [hrecords]; rfl⟩
    rwa [hrecords] at hi

theorem exec_finishRollback_ok (hw : w.Ready) {f : Fix} (hf : w.Applied f) (backup : Path) :
    ∃ now w', exec (finishRollback f backup (.ok ())) w = (.ok (rolledBack f now), w') ∧
      w.Moves (Store.FileOf w) w' ∧ w'.store.records =
        (w.store.records.append (rollbackLine f backup (.ok ()) now)).saveFix (rolledBack f now) := by
  have hline : Store.Stores w (do
      let now ← Work.now
      Store.append (rollbackLine f backup (.ok ()) now)
      Store.updateFix (rolledBack f now)
      pure (rolledBack f now)) (rolledBack f (w.tick w.clock))
      ((w.store.records.append (rollbackLine f backup (.ok ()) (w.tick w.clock))).saveFix
        (rolledBack f (w.tick w.clock))) :=
    .bind hw .now fun w₁ hw₁ h₁ =>
      h₁ ▸ stores_line (f := f) hw₁ (h₁.symm ▸ hf.1) _ (rolledBack f (w.tick w.clock)) rfl
  obtain ⟨w', hexec, hmoves, hrecords⟩ := hline
  refine ⟨w.tick w.clock, w', ?_, hmoves, hrecords⟩
  rw [← hexec, finishRollback, Fix.transition_of_status hf.2]
  rfl

/-- Rolling back the newest fix of a file writes its copy back, or fails because the copy cannot be
read or the disk does not take its bytes. -/
theorem exec_rollback_newest (hw : w.Sound) {f : Fix} (hf : w.Newest f) {backup : Path}
    (hbackup : f.backupPath = some backup) :
    (∃ fault now w', exec (rollback f.id) w = (.error fault, w') ∧
        (∀ bytes, exec (Backup.verifiedBytes backup) w = (.ok bytes, w) → ¬ w.Takes f.file bytes) ∧
        w.Turns (Store.FileOf w) w.store.records.fixes [rollbackLine f backup (.error fault) now] w') ∨
      ∃ bytes now place w', exec (Backup.verifiedBytes backup) w = (.ok bytes, w) ∧
        exec (rollback f.id) w = (.ok (rolledBack f now), w') ∧
        w.Lifted f backup now place bytes w' := by
  obtain ⟨dir, n, hp, hn⟩ := (hw.fix_source f hf.1.1).exists_concat
  obtain ⟨r, hread⟩ := Backup.exec_verifiedBytes w backup
  rw [exec_rollback_eq hw hf hbackup, Work.exec_bind, Work.exec_attempt]
  rcases exec_restore hw.toSteady hp hread with
    ⟨fault, hrestore, hnot⟩ | ⟨bytes, t, rfl, hrestore, htree, hbytes⟩
  · obtain ⟨now, w', hfinish, hturns⟩ := exec_finishRollback_error hw f backup fault
    rw [hrestore]
    refine Or.inl ⟨fault, now, w', hfinish, fun bytes hbytes => hnot bytes ?_, hturns⟩
    exact (Prod.mk.inj (hread.symm.trans hbytes)).1
  · have hmoves : w.Moves (· = dir ++ [n]) { w with tree := t } :=
      moves_tree (htree.mono (fun _ hq => hq) fun _ hq => hq.elim)
    obtain ⟨now, w', hfinish, hmoves', hrecords⟩ :=
      exec_finishRollback_ok (f := f) (hmoves.ready hw.toReady) hf.1 backup
    rw [hrestore]
    refine Or.inr ⟨bytes, now, dir ++ [n], w', hread, hfinish, ?_, hp, ?_⟩
    · exact hw.turns_put (Store.moves_then hw.toReady hmoves hmoves') hf.1.1 (rolledBack f now) rfl
        rfl hrecords
    · exact hmoves'.tree.file_eq (fun hq => hn (Or.inl hq.mem_files)) hbytes

/-- Rolling back is refused, unless it is about the newest fix of a file. -/
theorem exec_rollback (hw : w.Sound) (id : String) :
    (∃ fault, exec (rollback id) w = (.error fault, w)) ∨
      ∃ f backup, w.Newest f ∧ f.id = id ∧ f.backupPath = some backup := by
  refine (exec_fix_bind (w := w) (e := .rollBack) id fun f hf => ?_).elim Or.inl ?_
  · obtain ⟨fault, hfault⟩ := Fix.ensure_of_ne hf
    rw [Work.exec_bind, Work.exec_ofExcept, hfault]
    exact ⟨fault, rfl⟩
  rintro ⟨f, hf, rfl, hstatus, hexec⟩
  cases hbackup : f.backupPath with
  | none =>
    refine Or.inl ?_
    rw [rollback, hexec, Fix.ensure_of_status hstatus, Work.exec_bind, Work.exec_ofExcept]
    simp only [hbackup]
    exact ⟨_, rfl⟩
  | some backup =>
    obtain ⟨b, hlook, hb⟩ := exec_hasLaterFix hw hf
    cases b with
    | true =>
      refine Or.inl ?_
      rw [rollback, hexec, Fix.ensure_of_status hstatus, Work.exec_bind, Work.exec_ofExcept]
      simp only [hbackup]
      rw [Work.exec_bind, hlook]
      exact ⟨_, rfl⟩
    | false =>
      refine Or.inr ⟨f, backup, ⟨⟨hf, hstatus⟩, fun g hg hfile => ?_⟩, rfl, hbackup⟩
      rw [Bool.eq_false_iff]
      exact fun hlater => absurd (hb.mpr ⟨g, hg, hfile, hlater⟩) (by simp)

end Service

end Mend
