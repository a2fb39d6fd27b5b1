import Mend.Proofs.Patch.Applier
import Mend.Proofs.Remediation.Steps

/-!
# What applying a fix does

Applying is refused, or ends a confirmed fix in one of two ways (`Service.exec_apply`). Either the
fix is laid over its file (`Workspace.Laid`), whose bytes were copied before they were replaced, or
the fix has failed and the file stays as it was: where the patched text fails its check, the copy is
written back. Both ways add one line to the audit trail.
-/

namespace Mend

open Work (exec)

/-! ## Patching -/

/-- A fix is laid over the bytes of a file, of which a copy is kept, or the file stays as it is,
for the disk takes the old bytes back. -/
theorem Patch.Applier.moves_applyTo (a : Applier) {w : Workspace} (hw : w.Ready)
    (hrep : w.Representable) (hdir : ∀ n, .name n ∈ a.backups.parts → n ∉ Store.files) {p : Path}
    {place : Place} (hp : w.tree.FileAt p place) (f : Fix) :
    ∃ r w', exec (a.applyTo p f) w = (r, w') ∧ w'.store = w.store ∧
      ((∃ e, r = .error e ∧ w.Moves (Backup.Next w w'.tree a.backups) w') ∨
        ∃ outcome old new, r = .ok outcome ∧
          w.Moves (fun q => q = place ∨ Backup.Next w w'.tree a.backups q) w' ∧
          w.tree.get? place = some (.file old) ∧
          w'.tree.get? place = some (.file new) ∧
          Backup.Kept w' outcome.backup.path old) := by
  have hlink : Backup.Unlinked w p := fun n hn r q hlink => hw.unlinked hlink ⟨p, _, _, hn⟩
  have hfree : ∀ q, Backup.Along a.backups q → Free q := by
    rintro _ ⟨r, n, hn, rfl⟩
    exact ⟨r, n, rfl, hdir n hn⟩
  obtain ⟨r, w', hexec, hafter, hstore, hcases⟩ := a.exec_applyTo hw.grounded hrep hp hlink f
  have hhome : w'.store.home = w.store.home := by rw [hstore]
  refine ⟨r, w', hexec, hstore, ?_⟩
  rcases hcases with ⟨e, rfl, htree⟩ | ⟨outcome, old, new, rfl, hlaid, -⟩ | ⟨hnot, -⟩
  · exact Or.inl ⟨e, rfl, hafter, htree.mono (fun q hq => ⟨p, hq⟩) hfree, hhome⟩
  · obtain ⟨spot, n, hpath, -, hkept⟩ := hlaid.kept
    exact Or.inr ⟨outcome, old, new, rfl,
      ⟨hafter, hlaid.tree.mono (fun q hq => hq.imp_right fun hq => ⟨p, hq⟩) hfree, hhome⟩,
      hlaid.before, hlaid.after, _, spot, n, hpath, hkept⟩
  · exact absurd hw.takesBack hnot

/-! ## Applying -/

namespace Service

/-- The fix as it is kept once it is applied. -/
def applied (f : Fix) (outcome : Patch.Outcome) (now : Time) : Fix :=
  { f with
    status := .applied
    appliedAt := some now
    backupPath := some outcome.backup.path
    placement := some outcome.placement
    confidence := outcome.confidence }

/-- The fix as it is kept once it could not be applied. -/
def failed (f : Fix) : Fix := { f with status := .failed }

/-- The line of the audit trail for a fix that was applied. -/
def appliedLine (f : Fix) (outcome : Patch.Outcome) (now : Time) : Application :=
  { fixId := f.id
    action := .apply
    success := true
    placement := some outcome.placement
    backupPath := some outcome.backup.path
    appliedAt := now }

/-- The line of the audit trail for a fix that could not be applied. -/
def failedLine (f : Fix) (fault : Fault) (now : Time) : Application :=
  { fixId := f.id
    action := .apply
    success := false
    error := some fault.message
    appliedAt := now }

end Service

/-- The fix was laid over the file at a place, whose bytes changed from `old` to `new`. -/
structure Workspace.Laid (s : Service) (w : Workspace) (f : Fix) (outcome : Patch.Outcome)
    (now : Time) (place : Place) (old new : ByteArray) (w' : Workspace) : Prop where
  turns : w.Turns
    (fun q => q = place ∨ Backup.Next w w'.tree s.applier.backups q ∨ Store.FileOf w q)
    (Records.put Fix.id (Service.applied f outcome now) w.store.records.fixes)
    [Service.appliedLine f outcome now] w'
  fileAt : w.tree.FileAt f.file place
  before : w.tree.get? place = some (.file old)
  after : w'.tree.get? place = some (.file new)
  kept : w.Ahead → Backup.Kept w' outcome.backup.path old
  time : w.Ahead → w.clock.Reaches 1 now ∧ now.Reaches 0 w'.clock

namespace Service

variable {w : Workspace} {f : Fix}

/-- A line is added to the trail and a fix is replaced, at the next moment. -/
theorem stores_line (hw : w.Ready) (hf : f ∈ w.store.records.fixes) (a : Application) (f' : Fix)
    (hid : f'.id = f.id) : Store.Stores w (do Store.append a; Store.updateFix f'; pure f') f'
      ((w.store.records.append a).saveFix f') :=
  .bind hw (Store.stores_append hw a) fun _ hw' hrecords =>
    hrecords ▸ Store.stores_updateFix_pure (f := f) hw' (hrecords.symm ▸ hf) f' hid

theorem exec_recordApplied (hw : w.Ready) (hf : f ∈ w.store.records.fixes)
    (hstatus : f.status = .confirmed) (outcome : Patch.Outcome) :
    ∃ w', exec (recordApplied f outcome) w = (.ok (applied f outcome (w.tick w.clock)), w') ∧
      w.Moves (Store.FileOf w) w' ∧ (w.Ahead → (w.tick w.clock).Reaches 0 w'.clock) ∧
      w'.store.records = (w.store.records.append (appliedLine f outcome (w.tick w.clock))).saveFix
        (applied f outcome (w.tick w.clock)) := by
  have hnow := moves_now (Store.FileOf w) w
  obtain ⟨w', hexec, hmoves, hrecords⟩ := stores_line (hnow.ready hw) hf
    (appliedLine f outcome (w.tick w.clock)) (applied f outcome (w.tick w.clock)) rfl
  refine ⟨w', ?_, hnow.trans (hmoves.mono fun _ hq => Store.fileOf_of_moves hw hnow hq), ?_,
    hrecords⟩
  · rw [recordApplied, Fix.transition_of_status hstatus, Work.exec_bind, Work.exec_ofExcept]
    simp only
    rw [Work.exec_bind, Work.exec_now]
    exact hexec
  · exact fun hahead => (hmoves.reaches (hnow.ahead hahead)).mono (Nat.zero_le _)

theorem stores_recordFailed (hw : w.Ready) (hf : f ∈ w.store.records.fixes)
    (hstatus : f.status = .confirmed) (fault : Fault) :
    Store.Stores w (recordFailed f fault) ()
      ((w.store.records.append (failedLine f fault (w.tick w.clock))).saveFix (failed f)) := by
  have hline : Store.Stores w (do
      let now ← Work.now
      Store.append (failedLine f fault now)
      Store.updateFix (failed f)) ()
      ((w.store.records.append (failedLine f fault (w.tick w.clock))).saveFix (failed f)) :=
    .bind hw .now fun w₁ hw₁ h₁ => h₁ ▸ .bind hw₁ (Store.stores_append hw₁ _) fun w₂ hw₂ h₂ =>
      h₂ ▸ Store.stores_updateFix (f := f) hw₂ (by rw [h₂, h₁]; exact hf) (failed f) rfl
  rw [Store.Stores, recordFailed, Fix.transition_of_status (e := .applyFailed) hstatus, Work.exec_bind,
    Work.exec_ofExcept]
  exact hline

variable (s : Service)

/-- Once the file of a confirmed fix was patched, that is recorded. -/
theorem exec_apply_of_patched (hfix : w.store.records.fix? f.id = some f)
    (hstatus : f.status = .confirmed) {outcome : Patch.Outcome} {w' : Workspace}
    (hpatched : exec (s.applier.apply f) w = (.ok outcome, w')) :
    exec (s.apply f.id) w = exec (recordApplied f outcome) w' := by
  rw [apply, Work.exec_bind, exec_fix_of_some hfix]
  simp only
  rw [Work.exec_bind, Work.exec_ofExcept, Fix.ensure_of_status hstatus]
  simp only
  rw [Work.exec_bind, Work.exec_attempt, hpatched]

/-- Applying is refused, or a confirmed fix has failed or is laid over its file. -/
theorem exec_apply (hw : w.Sound) (hrep : w.Representable)
    (hdir : ∀ n, .name n ∈ s.applier.backups.parts → n ∉ Store.files) (id : String) :
    (∃ fault, exec (s.apply id) w = (.error fault, w)) ∨
      ∃ f ∈ w.store.records.fixes, f.id = id ∧ f.status = .confirmed ∧
        ((∃ fault now w', exec (s.apply id) w = (.error fault, w') ∧
            w.Turns (fun q => Backup.Next w w'.tree s.applier.backups q ∨ Store.FileOf w q)
              (Records.put Fix.id (failed f) w.store.records.fixes) [failedLine f fault now] w') ∨
          ∃ outcome now place old new w',
            exec (s.apply id) w = (.ok (applied f outcome now), w') ∧
              w.Laid s f outcome now place old new w') := by
  refine (exec_fix_bind (e := .applySucceeded) id fun f hf => ?_).imp_right ?_
  · obtain ⟨fault, hfault⟩ := Fix.ensure_of_ne hf
    rw [Work.exec_bind, Work.exec_ofExcept, hfault]
    exact ⟨fault, rfl⟩
  rintro ⟨f, hf, hid, hstatus, hexec⟩
  refine ⟨f, hf, hid, hstatus, ?_⟩
  obtain ⟨dir, n, hp, hn⟩ := (hw.fix_source f hf).exists_concat
  obtain ⟨r, w₁, happlyTo, hstore, hcases⟩ :=
    s.applier.moves_applyTo hw.toReady hrep hdir hp f
  have happly : exec (s.applier.apply f) w = (r, w₁) := by
    rw [Patch.Applier.apply, Work.exec_bind, Patch.exec_target,
      Patch.knownAs_of_fileAt hw.grounded hp]
    exact happlyTo
  rw [apply, hexec, Fix.ensure_of_status hstatus, Work.exec_bind, Work.exec_ofExcept]
  simp only
  rw [Work.exec_bind, Work.exec_attempt, happly]
  rcases hcases with ⟨e, rfl, hmoves⟩ | ⟨outcome, old, new, rfl, hmoves, hold, hnew, hkept⟩
  · obtain ⟨w', hfailed, hmoves', hrecords⟩ :=
      stores_recordFailed (hmoves.ready hw.toReady) (hstore ▸ hf) hstatus e
    have hall := Store.moves_then hw.toReady hmoves hmoves'
    refine Or.inl ⟨e, w₁.tick w₁.clock, w', ?_,
      hw.turns_put (hall.mono ?_) hf (failed f) rfl rfl ?_⟩
    · simp only
      rw [Work.exec_bind, hfailed]
      rfl
    · exact fun q hq => hq.imp_left fun hq => hq.becomes hmoves'.tree
    · rw [hrecords, hstore]
      rfl
  · obtain ⟨w', hrecord, hmoves', htime, hrecords⟩ :=
      exec_recordApplied (hmoves.ready hw.toReady) (hstore ▸ hf) hstatus outcome
    have hall := Store.moves_then hw.toReady hmoves hmoves'
    refine Or.inr ⟨outcome, _, dir ++ [n], old, new, w', hrecord, ?_⟩
    constructor
    case turns =>
      refine hw.turns_put (hall.mono ?_) hf (applied f outcome _) rfl rfl ?_
      · rintro q ((hq | hq) | hq)
        · exact Or.inl hq
        · exact Or.inr (Or.inl (hq.becomes hmoves'.tree))
        · exact Or.inr (Or.inr hq)
      · rw [hrecords, hstore]
        rfl
    case fileAt => exact hp
    case before => exact hold
    case after => exact hmoves'.tree.file_eq (fun hq => hn (Or.inl hq.mem_files)) hnew
    case kept =>
      exact fun hahead => hkept.moves (hmoves.ahead hahead) hmoves'
        fun r m hq => not_taken_of_mem_files w₁ hq.mem_files
    case time =>
      intro hahead
      have hnext := Time.reaches_of_before (hmoves.ahead hahead w₁.clock)
      exact ⟨((hmoves.reaches hahead).trans hnext).mono (by omega), htime (hmoves.ahead hahead)⟩

end Service

end Mend
