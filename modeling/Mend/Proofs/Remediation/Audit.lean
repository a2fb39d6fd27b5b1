import Mend.Proofs.Remediation.Run

/-!
# The audit trail tells where a fix is

The lines of the audit trail about a fix and the status of the fix say the same (`Fix.Accounted`): a
fix that was never tried has no lines, a failed one has the line of its failure, and an applied one
has the line of its application, with the copy and the placement that the fix itself names. After that
line come failed attempts to roll it back, and one that succeeded once the fix is rolled back. Every
operation keeps this (`Records.Audited`), and so it holds after every run (`Service.Runs.audited`).
-/

namespace Mend

/-! ## Lines about a fix -/

/-- The line tells of a fix that was applied, as the fix itself does. -/
structure Fix.AppliedBy (f : Fix) (a : Application) : Prop where
  action : a.action = .apply
  success : a.success = true
  confirmedAt : f.confirmedAt.isSome
  appliedAt : f.appliedAt.isSome
  backupPath : f.backupPath.isSome ∧ a.backupPath = f.backupPath
  placement : f.placement.isSome ∧ a.placement = f.placement

/-- The line tells of an attempt to roll back, and whether it succeeded. -/
def Application.RollsBack (a : Application) (success : Bool) : Prop :=
  a.action = .rollback ∧ a.success = success

/-- The lines about a fix are those of its status, in the order in which they were written. -/
def Fix.Accounted (f : Fix) (lines : List Application) : Prop :=
  match f.status with
  | .pending | .rejected => lines = []
  | .confirmed => lines = [] ∧ f.confirmedAt.isSome
  | .failed => ∃ a, lines = [a] ∧ a.action = .apply ∧ a.success = false ∧ a.error.isSome
  | .applied => ∃ a tries, lines = a :: tries ∧ f.AppliedBy a ∧ ∀ b ∈ tries, b.RollsBack false
  | .rolledBack => ∃ a tries b, lines = a :: tries ++ [b] ∧ f.AppliedBy a ∧
      (∀ b ∈ tries, b.RollsBack false) ∧ b.RollsBack true ∧ f.rolledBackAt.isSome

namespace Records

/-- Every line is about a fix, and the lines about each fix are those of its status. -/
structure Audited (r : Records) : Prop where
  known : ∀ a ∈ r.applications, ∃ f ∈ r.fixes, f.id = a.fixId
  accounted : ∀ f ∈ r.fixes, f.Accounted (r.trail (some f.id))

theorem trail_append {r r' : Records} {lines : List Application}
    (h : r'.applications = r.applications ++ lines) (id : String) :
    r'.trail (some id) = r.trail (some id) ++ lines.filter fun a => a.fixId = id := by
  simp [trail, h]

namespace Audited

variable {r r' : Records} {f' : Fix} {lines : List Application}

/-- One fix changes, and lines about it are added. -/
theorem turn (h : r.Audited) (hmem : f' ∈ r'.fixes)
    (hfixes : ∀ g ∈ r'.fixes, g = f' ∨ (g ∈ r.fixes ∧ g.id ≠ f'.id))
    (hids : ∀ g ∈ r.fixes, ∃ g' ∈ r'.fixes, g'.id = g.id)
    (htrail : r'.applications = r.applications ++ lines) (hlines : ∀ a ∈ lines, a.fixId = f'.id)
    (hf' : f'.Accounted (r.trail (some f'.id) ++ lines)) : r'.Audited where
  known := by
    intro a ha
    rw [htrail] at ha
    rcases List.mem_append.mp ha with ha | ha
    · obtain ⟨g, hg, hid⟩ := h.known a ha
      obtain ⟨g', hg', hid'⟩ := hids g hg
      exact ⟨g', hg', hid'.trans hid⟩
    · exact ⟨f', hmem, (hlines a ha).symm⟩
  accounted := by
    intro g hg
    rw [trail_append htrail]
    rcases hfixes g hg with rfl | ⟨hg, hid⟩
    · rwa [List.filter_eq_self.mpr fun a ha => by simpa using hlines a ha]
    · have hnone : lines.filter (fun a => a.fixId = g.id) = [] :=
        List.filter_eq_nil_iff.mpr fun a ha => by simp [hlines a ha, Ne.symm hid]
      rw [hnone, List.append_nil]
      exact h.accounted g hg

/-- A fix takes the place of the one with its id. -/
theorem put (h : r.Audited) (hnodup : (r.fixes.map Fix.id).Nodup) {f : Fix} (hf : f ∈ r.fixes)
    (hfixes : r'.fixes = Records.put Fix.id f' r.fixes) (hid : f'.id = f.id)
    (htrail : r'.applications = r.applications ++ lines) (hlines : ∀ a ∈ lines, a.fixId = f.id)
    (hf' : f'.Accounted (r.trail (some f.id) ++ lines)) : r'.Audited := by
  have hkeys : r'.fixes.map Fix.id = r.fixes.map Fix.id := by
    rw [hfixes]
    exact map_put_of_mem (hid ▸ List.mem_map_of_mem hf)
  refine h.turn (hfixes ▸ mem_put_self f' _) (fun g hg => ?_) (fun g hg => ?_) htrail
    (hid ▸ hlines) (hid ▸ hf')
  · rw [hfixes] at hg
    exact (mem_put hnodup).mp hg
  · exact List.mem_map.mp (hkeys ▸ List.mem_map_of_mem hg)

/-- Lines are added about a fix that stays as it is. -/
theorem same (h : r.Audited) (hnodup : (r.fixes.map Fix.id).Nodup) {f : Fix} (hf : f ∈ r.fixes)
    (hfixes : r'.fixes = r.fixes) (htrail : r'.applications = r.applications ++ lines)
    (hlines : ∀ a ∈ lines, a.fixId = f.id) (hf' : f.Accounted (r.trail (some f.id) ++ lines)) :
    r'.Audited := by
  refine h.turn (hfixes ▸ hf) (fun g hg => ?_) (fun g hg => ⟨g, hfixes ▸ hg, rfl⟩) htrail hlines hf'
  rw [hfixes] at hg
  by_cases hid : g.id = f.id
  · exact Or.inl (List.inj_on_of_nodup_map hnodup hg hf hid)
  · exact Or.inr ⟨hg, hid⟩

/-- Suggestions are added under new ids. -/
theorem suggest {p : Policy} (h : r.Audited) {news : List Fix}
    (hfixes : r'.fixes = r.fixes ++ news) (hnodup : (r'.fixes.map Fix.id).Nodup)
    (hnews : ∀ f ∈ news, f.Suggested p) (htrail : r'.applications = r.applications) :
    r'.Audited where
  known := by
    intro a ha
    obtain ⟨f, hf, hid⟩ := h.known a (htrail ▸ ha)
    exact ⟨f, by rw [hfixes]; exact List.mem_append_left _ hf, hid⟩
  accounted := by
    intro f hf
    have hsame : r'.trail (some f.id) = r.trail (some f.id) := by rw [trail, trail, htrail]
    rw [hsame]
    rw [hfixes] at hf
    rcases List.mem_append.mp hf with hf | hf
    · exact h.accounted f hf
    · -- a line about a new fix would be about an old one with the same id
      have hnone : r.trail (some f.id) = [] := by
        refine List.filter_eq_nil_iff.mpr fun a ha hid => ?_
        obtain ⟨g, hg, hgid⟩ := h.known a ha
        rw [hfixes, List.map_append, List.nodup_append] at hnodup
        exact hnodup.2.2 g.id (List.mem_map_of_mem hg) f.id (List.mem_map_of_mem hf)
          (hgid.trans (by simpa using hid))
      rw [hnone]
      rcases (hnews f hf).pending_or_confirmed with hstatus | hstatus
      · rw [Fix.Accounted, hstatus]
      · rw [Fix.Accounted, hstatus]
        exact ⟨rfl, (hnews f hf).confirmedAt hstatus⟩

end Audited

end Records

/-! ## Operations and runs -/

namespace Service

variable {s : Service} {w₀ w w' : Workspace} {o : Operation} {r : Except Fault Unit}
  {steps : List Step}

/-- Every operation keeps the trail and the fixes in step. -/
theorem Does.keeps_audited (h : s.Does w o r w') (hw : w.Sound) (haudit : w.store.records.Audited) :
    w'.store.records.Audited := by
  cases h with
  | refused => exact haudit
  | suggests ho h =>
    obtain ⟨news, hfixes, hnews⟩ := h.fixes
    exact haudit.suggest hfixes h.sound.nodup hnews h.trail
  | @confirms f now _ hf hstatus h =>
    have hbefore := haudit.accounted f hf
    simp only [Fix.Accounted, hstatus] at hbefore
    refine haudit.put hw.nodup hf h.fixes_eq rfl h.trail_eq (by simp) ?_
    simp [Fix.Accounted, confirmed, hbefore]
  | @rejects f _ hf hstatus h =>
    have hbefore := haudit.accounted f hf
    simp only [Fix.Accounted, hstatus] at hbefore
    refine haudit.put hw.nodup hf h.fixes_eq rfl h.trail_eq (by simp) ?_
    simp [Fix.Accounted, rejected, hbefore]
  | @fails f fault now _ hf hstatus h =>
    have hbefore := haudit.accounted f hf
    simp only [Fix.Accounted, hstatus] at hbefore
    refine haudit.put hw.nodup hf h.fixes_eq rfl h.trail_eq (by simp [failedLine]) ?_
    rw [hbefore.1]
    exact ⟨failedLine f fault now, rfl, rfl, rfl, rfl⟩
  | @applies f outcome now _ _ _ _ hf hstatus h =>
    have hbefore := haudit.accounted f hf
    simp only [Fix.Accounted, hstatus] at hbefore
    refine haudit.put hw.nodup hf h.turns.fixes_eq rfl h.turns.trail_eq (by simp [appliedLine]) ?_
    rw [hbefore.1]
    exact ⟨appliedLine f outcome now, [], rfl, ⟨rfl, rfl, hbefore.2, rfl, ⟨rfl, rfl⟩, rfl, rfl⟩,
      by simp⟩
  | @sticks f backup fault now _ hf hbackup h =>
    have hbefore := haudit.accounted f hf.1.1
    rw [Fix.Accounted, hf.1.2] at hbefore
    obtain ⟨a, tries, hlines, happlied, htries⟩ := hbefore
    refine haudit.same hw.nodup hf.1.1 h.fixes_eq h.trail_eq (by simp [rollbackLine]) ?_
    rw [Fix.Accounted, hf.1.2, hlines]
    refine ⟨a, tries ++ [rollbackLine f backup (.error fault) now], rfl, happlied, fun b hb => ?_⟩
    rcases List.mem_append.mp hb with hb | hb
    · exact htries b hb
    · rw [List.mem_singleton.mp hb]
      exact ⟨rfl, rfl⟩
  | @lifts f backup bytes now place _ hf hbackup hbytes h =>
    have hbefore := haudit.accounted f hf.1.1
    rw [Fix.Accounted, hf.1.2] at hbefore
    obtain ⟨a, tries, hlines, happlied, htries⟩ := hbefore
    refine haudit.put hw.nodup hf.1.1 h.turns.fixes_eq rfl h.turns.trail_eq
      (by simp [rollbackLine]) ?_
    rw [hlines]
    exact ⟨a, tries, rollbackLine f backup (.ok ()) now, rfl,
      ⟨happlied.action, happlied.success, happlied.confirmedAt, happlied.appliedAt,
        happlied.backupPath, happlied.placement⟩, htries, ⟨rfl, rfl⟩, rfl⟩

/-- After every run from an empty store that can be written, the lines of the audit trail about each
fix are those of its status. Meanwhile others may write files and make directories, but not remove or
rename what is there (`Workspace.Meddled`). -/
theorem Runs.audited (h : s.Runs Workspace.Meddled w₀ steps w) (hw₀ : s.Fresh w₀) :
    w.store.records.Audited := by
  refine (h.sound_and (I := fun _ w => w.store.records.Audited) hw₀ id ?_ ?_ ?_).2
  · exact ⟨by simp [hw₀.empty], by simp [hw₀.empty]⟩
  · exact fun hw haudit hdoes => hdoes.keeps_audited hw haudit
  · intro steps w w' hw haudit hmeddled
    rw [hmeddled.store]
    exact haudit

theorem audited_counter : mendedCounter.store.records.Audited := by
  obtain ⟨steps, hruns, hmodest⟩ := runs_scannedCounter Workspace.Meddled
  exact Runs.audited (hruns.perform hmodest.representable _) fresh_counter

end Service

end Mend
