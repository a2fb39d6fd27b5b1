import Mend.Proofs.FileTree.Opening
import Mend.Proofs.Patch.Placement
import Mend.Proofs.Remediation.Live

/-!
# Applied fixes lie over a file in layers

Nowhere is it written down in which order fixes were laid over a file, but their copies tell
(`Workspace.Stacked`): the copy of the oldest applied fix of a file has the bytes from before all of
them, the copy of each later one has the bytes that the fix before it wrote, and the file has those
that the newest one wrote. Applying adds a layer (`Stacked.lay`), rolling back takes the newest one
away (`Stacked.lift`), and all else leaves the layers alone (`Stacked.keep`). So the layers stand
after every run in which nobody else writes files and the clock moves on (`Service.Runs.stacked`).
-/

namespace Mend

open Work (exec)

/-! ## Layers -/

/-- The first fix was applied before the other one. -/
def Fix.AppliedBefore (f g : Fix) : Prop :=
  ∃ t u, f.appliedAt = some t ∧ g.appliedAt = some u ∧ t.before u = true

/-- One of the steps applied the fix, and the bytes at a place changed from `old` to `new`. -/
def Service.Wrote (steps : List Step) (place : Place) (f : Fix) (old new : ByteArray) : Prop :=
  ∃ step ∈ steps, step.operation = .apply f.id ∧ step.result = .ok () ∧
    step.before.tree.get? place = some (.file old) ∧ step.after.tree.get? place = some (.file new)

/-- The copy of the fix has the bytes. -/
def Workspace.Keeps (w : Workspace) (f : Fix) (bytes : ByteArray) : Prop :=
  ∃ backup, f.backupPath = some backup ∧ Backup.Kept w backup bytes

/-- Fixes, the oldest first, lead from the original bytes to others: the copy of each has the bytes
that it was laid over, which are those that the fix before it wrote. -/
inductive Layers (w : Workspace) (steps : List Service.Step) (place : Place)
    (original : ByteArray) : List Fix → ByteArray → Prop
  | bare : Layers w steps place original [] original
  | laid {fs old f new} (below : Layers w steps place original fs old) (copy : w.Keeps f old)
      (wrote : Service.Wrote steps place f old new) :
      Layers w steps place original (fs ++ [f]) new

/-- The applied fixes of a file, the oldest first, lie over its original bytes in layers and led to
those that it has. -/
structure Workspace.Stacked (w : Workspace) (steps : List Service.Step) (p : Path) (place : Place)
    (original : ByteArray) (fs : List Fix) (current : ByteArray) : Prop where
  applied : ∀ f, f ∈ fs ↔ w.Applied f ∧ f.file = p
  ordered : fs.Pairwise Fix.AppliedBefore
  past : ∀ f ∈ fs, ∃ t, f.appliedAt = some t ∧ t.Reaches 0 w.clock
  bytes : w.tree.get? place = some (.file current)
  layers : Layers w steps place original fs current

namespace Layers

variable {w w' : Workspace} {steps : List Service.Step} {place : Place}
  {original new : ByteArray} {fs : List Fix}

theorem top {f : Fix} (h : Layers w steps place original (fs ++ [f]) new) :
    ∃ old, Layers w steps place original fs old ∧ w.Keeps f old ∧
      Service.Wrote steps place f old new := by
  generalize hall : fs ++ [f] = all at h
  cases h with
  | bare => simp at hall
  | @laid fs' old f' _ below copy wrote =>
    obtain ⟨rfl, hf⟩ := List.append_inj' hall rfl
    obtain rfl := (List.singleton_inj.mp hf)
    exact ⟨old, below, copy, wrote⟩

theorem mono (h : Layers w steps place original fs new)
    (hkeeps : ∀ {f bytes}, w.Keeps f bytes → w'.Keeps f bytes) (step : Service.Step) :
    Layers w' (step :: steps) place original fs new := by
  induction h with
  | bare => exact bare
  | laid _ copy wrote ih =>
    obtain ⟨step', hmem, hwrote⟩ := wrote
    exact laid ih (hkeeps copy) ⟨step', List.mem_cons_of_mem _ hmem, hwrote⟩

end Layers

theorem Time.Reaches.before {t u : Time} (h : t.Reaches 1 u) : t.before u = true := by
  simp only [Time.before, Bool.or_eq_true, decide_eq_true_eq, Bool.and_eq_true, beq_iff_eq]
  unfold Reaches at h
  omega

theorem Fix.AppliedBefore.laterThan {f g : Fix} (h : f.AppliedBefore g) :
    Service.laterThan g.appliedAt f.appliedAt = true := by
  obtain ⟨t, u, hf, hg, hbefore⟩ := h
  rw [hf, hg]
  exact hbefore

theorem Fix.AppliedBefore.not_laterThan {f g : Fix} (h : f.AppliedBefore g) :
    Service.laterThan f.appliedAt g.appliedAt = false := by
  obtain ⟨t, u, hf, hg, hbefore⟩ := h
  have hreaches := Time.reaches_of_before hbefore
  rw [hf, hg, Bool.eq_false_iff]
  intro hlater
  have hback := Time.reaches_of_before hlater
  unfold Time.Reaches at hreaches hback
  omega

theorem Fix.AppliedBefore.ne {f g : Fix} (h : f.AppliedBefore g) : f ≠ g := by
  rintro rfl
  have hlater := h.laterThan
  rw [Service.laterThan_self] at hlater
  cases hlater

/-! ## What operations do to layers -/

/-- A fix takes the place of the one with its id. -/
theorem Workspace.Sound.applied_put {w w' : Workspace} (hw : w.Sound) {f f' : Fix}
    (hf : f ∈ w.store.records.fixes)
    (hfixes : w'.store.records.fixes = Records.put Fix.id f' w.store.records.fixes)
    (hid : f'.id = f.id) (g : Fix) :
    w'.Applied g ↔ (g = f' ∧ f'.status = .applied) ∨ (w.Applied g ∧ g ≠ f) := by
  rw [Workspace.Applied, hfixes, Records.mem_put hw.nodup, Workspace.Applied]
  constructor
  · rintro ⟨rfl | ⟨hg, hgid⟩, hstatus⟩
    · exact Or.inl ⟨rfl, hstatus⟩
    · exact Or.inr ⟨⟨hg, hstatus⟩, fun hgf => hgid (by rw [hgf, hid])⟩
  · rintro (⟨rfl, hstatus⟩ | ⟨hg, hne⟩)
    · exact ⟨Or.inl rfl, hstatus⟩
    · exact ⟨Or.inr ⟨hg.1, fun hgid => hne (hw.eq_of_id hg.1 hf (hgid.trans hid))⟩, hg.2⟩

/-- A fix that is not applied takes the place of one that is not either. -/
theorem Workspace.Sound.applied_put_of_ne {w w' : Workspace} (hw : w.Sound) {f f' : Fix}
    (hf : f ∈ w.store.records.fixes)
    (hfixes : w'.store.records.fixes = Records.put Fix.id f' w.store.records.fixes)
    (hid : f'.id = f.id) (hstatus : f.status ≠ .applied) (hstatus' : f'.status ≠ .applied) (g : Fix) :
    w'.Applied g ↔ w.Applied g := by
  rw [hw.applied_put hf hfixes hid]
  constructor
  · rintro (⟨-, h⟩ | ⟨hg, -⟩)
    · exact absurd h hstatus'
    · exact hg
  · exact fun hg => Or.inr ⟨hg, fun hgf => hstatus (hgf ▸ hg.2)⟩

/-- A fix about another file is replaced. -/
theorem Workspace.Sound.applied_put_of_file {w w' : Workspace} (hw : w.Sound) {f f' : Fix}
    (hf : f ∈ w.store.records.fixes)
    (hfixes : w'.store.records.fixes = Records.put Fix.id f' w.store.records.fixes)
    (hid : f'.id = f.id) (hsame : f'.file = f.file) {p : Path} (hfile : f.file ≠ p) (g : Fix) :
    w'.Applied g ∧ g.file = p ↔ w.Applied g ∧ g.file = p := by
  rw [hw.applied_put hf hfixes hid]
  constructor
  · rintro ⟨⟨rfl, -⟩ | ⟨hg, -⟩, hgfile⟩
    · exact absurd (hsame.symm.trans hgfile) hfile
    · exact ⟨hg, hgfile⟩
  · rintro ⟨hg, hgfile⟩
    exact ⟨Or.inr ⟨hg, fun hgf => hfile (hgf ▸ hgfile)⟩, hgfile⟩

namespace Workspace.Stacked

variable {w w' : Workspace} {steps : List Service.Step} {p : Path} {place : Place}
  {original current : ByteArray} {fs : List Fix} {changed : Place → Prop}

theorem nodup (h : w.Stacked steps p place original fs current) : fs.Nodup :=
  h.ordered.imp Fix.AppliedBefore.ne

theorem past_of_moves (h : w.Stacked steps p place original fs current) (hahead : w.Ahead)
    (hmoves : w.Moves changed w') :
    ∀ f ∈ fs, ∃ t, f.appliedAt = some t ∧ t.Reaches 0 w'.clock := by
  intro f hf
  obtain ⟨t, ht, hpast⟩ := h.past f hf
  exact ⟨t, ht, (hpast.trans (hmoves.reaches hahead)).mono (Nat.zero_le _)⟩

theorem keeps_of_moves (hahead : w.Ahead) (hmoves : w.Moves changed w')
    (hchanged : ∀ r n, changed (r ++ [n]) → ¬ Taken w n) {f : Fix} {bytes : ByteArray}
    (h : w.Keeps f bytes) : w'.Keeps f bytes := by
  obtain ⟨backup, hbackup, hkept⟩ := h
  exact ⟨backup, hbackup, hkept.moves hahead hmoves hchanged⟩

/-- What writes elsewhere and leaves the applied fixes of the file alone keeps the layers. -/
theorem keep (h : w.Stacked steps p place original fs current) (hahead : w.Ahead)
    (hmoves : w.Moves changed w') (hplace : ¬ changed place)
    (hchanged : ∀ r n, changed (r ++ [n]) → ¬ Taken w n)
    (happlied : ∀ f, w'.Applied f ∧ f.file = p ↔ w.Applied f ∧ f.file = p)
    (step : Service.Step) : w'.Stacked (step :: steps) p place original fs current where
  applied f := (h.applied f).trans (happlied f).symm
  ordered := h.ordered
  past := h.past_of_moves hahead hmoves
  bytes := hmoves.tree.file_eq hplace h.bytes
  layers := h.layers.mono (keeps_of_moves hahead hmoves hchanged) step

/-- The newest applied fix of the file is the last layer. -/
theorem exists_top {f : Fix} (h : w.Stacked steps p place original fs current) (hf : w.Newest f)
    (hfile : f.file = p) : ∃ below, fs = below ++ [f] := by
  have hmem : f ∈ fs := (h.applied f).mpr ⟨hf.1, hfile⟩
  rcases List.eq_nil_or_concat' fs with rfl | ⟨below, g, rfl⟩
  · simp at hmem
  · refine ⟨below, ?_⟩
    rcases List.mem_append.mp hmem with hbelow | hg
    · have hbefore := (List.pairwise_append.mp h.ordered).2.2 f hbelow g (by simp)
      obtain ⟨hg, hgfile⟩ := (h.applied g).mp (by simp)
      have hlater := hf.2 g hg (hgfile.trans hfile.symm)
      rw [hbefore.laterThan] at hlater
      cases hlater
    · rw [List.mem_singleton.mp hg]

/-- The last layer is the newest applied fix of the file. -/
theorem newest {f : Fix} (h : w.Stacked steps p place original (fs ++ [f]) current) :
    w.Newest f := by
  obtain ⟨hf, hfile⟩ := (h.applied f).mp (by simp)
  refine ⟨hf, fun g hg hgfile => ?_⟩
  rcases List.mem_append.mp ((h.applied g).mpr ⟨hg, hgfile.trans hfile⟩) with hbelow | hlast
  · exact ((List.pairwise_append.mp h.ordered).2.2 g hbelow f (by simp)).not_laterThan
  · rw [List.mem_singleton.mp hlast]
    exact Service.laterThan_self _

/-- Applying a fix adds a layer. -/
theorem lay {s : Service} {f : Fix} {outcome : Patch.Outcome} {now : Time} {old new : ByteArray}
    {r : Except Fault Unit} (h : w.Stacked steps p place original fs current) (hw : w.Sound)
    (hahead : w.Ahead) (hf : f ∈ w.store.records.fixes) (hstatus : f.status = .confirmed)
    (hfile : f.file = p) (hlaid : w.Laid s f outcome now place old new w')
    (hchanged : ∀ r n, (r ++ [n] = place ∨ Backup.Next w w'.tree s.applier.backups (r ++ [n]) ∨
      Store.FileOf w (r ++ [n])) → ¬ Taken w n) (hr : r = .ok ()) :
    w'.Stacked (⟨.apply f.id, r, w, w'⟩ :: steps) p place original
      (fs ++ [Service.applied f outcome now]) new := by
  have hmoves := hlaid.turns.moves
  have hunapplied : ∀ g, w.Applied g → g ≠ f := by
    rintro g hg rfl
    rw [Workspace.Applied, hstatus] at hg
    cases hg.2
  obtain rfl : current = old := by simpa using h.bytes.symm.trans hlaid.before
  obtain ⟨hlate, hnow⟩ := hlaid.time hahead
  constructor
  case applied =>
    intro g
    rw [List.mem_append, List.mem_singleton, h.applied, hw.applied_put hf hlaid.turns.fixes_eq rfl]
    constructor
    · rintro (⟨hg, hgfile⟩ | rfl)
      · exact ⟨Or.inr ⟨hg, hunapplied g hg⟩, hgfile⟩
      · exact ⟨Or.inl ⟨rfl, rfl⟩, hfile⟩
    · rintro ⟨⟨rfl, -⟩ | ⟨hg, -⟩, hgfile⟩
      · exact Or.inr rfl
      · exact Or.inl ⟨hg, hgfile⟩
  case ordered =>
    refine List.pairwise_append.mpr ⟨h.ordered, List.pairwise_singleton _ _, fun g hg f' hf' => ?_⟩
    obtain ⟨t, ht, hpast⟩ := h.past g hg
    rw [List.mem_singleton.mp hf']
    exact ⟨t, now, ht, rfl, ((hpast.trans hlate).mono (by omega)).before⟩
  case past =>
    intro g hg
    rcases List.mem_append.mp hg with hg | hg
    · exact h.past_of_moves hahead hmoves g hg
    · rw [List.mem_singleton.mp hg]
      exact ⟨now, rfl, hnow⟩
  case bytes => exact hlaid.after
  case layers =>
    exact .laid (h.layers.mono (keeps_of_moves hahead hmoves hchanged) _)
      ⟨_, rfl, hlaid.kept hahead⟩
      ⟨_, List.mem_cons_self, rfl, hr, hlaid.before, hlaid.after⟩

/-- Rolling back the newest fix takes the last layer away. -/
theorem lift {f : Fix} {backup : Path} {now : Time} {bytes : ByteArray}
    (h : w.Stacked steps p place original (fs ++ [f]) current) (hw : w.Sound) (hahead : w.Ahead)
    (hbackup : f.backupPath = some backup)
    (hbytes : exec (Backup.verifiedBytes backup) w = (.ok bytes, w))
    (hlifted : w.Lifted f backup now place bytes w')
    (hchanged : ∀ r n, (r ++ [n] = place ∨ Store.FileOf w (r ++ [n])) → ¬ Taken w n)
    (step : Service.Step) :
    w'.Stacked (step :: steps) p place original fs bytes ∧
      Service.Wrote steps place f bytes current := by
  have hmoves := hlifted.turns.moves
  obtain ⟨hf, hfile⟩ := (h.applied f).mp (by simp)
  obtain ⟨old, hbelow, ⟨backup', hbackup', hkept⟩, hwrote⟩ := h.layers.top
  obtain rfl : backup = backup' := by simpa using hbackup.symm.trans hbackup'
  obtain rfl : bytes = old := by
    have hsame := hbytes.symm.trans hkept.verifiedBytes
    simpa using hsame
  have hnodup : f ∉ fs := fun hmem =>
    ((List.pairwise_append.mp h.ordered).2.2 f hmem f (by simp)).ne rfl
  refine ⟨?_, hwrote⟩
  constructor
  case applied =>
    intro g
    rw [hw.applied_put hf.1 hlifted.turns.fixes_eq rfl]
    have hg := h.applied g
    rw [List.mem_append, List.mem_singleton] at hg
    constructor
    · intro hmem
      obtain ⟨happlied, hgfile⟩ := hg.mp (Or.inl hmem)
      exact ⟨Or.inr ⟨happlied, fun hgf => hnodup (hgf ▸ hmem)⟩, hgfile⟩
    · rintro ⟨⟨-, hstatus⟩ | ⟨happlied, hne⟩, hgfile⟩
      · cases hstatus
      · exact (hg.mpr ⟨happlied, hgfile⟩).resolve_right hne
  case ordered => exact (List.pairwise_append.mp h.ordered).1
  case past =>
    exact fun g hg => h.past_of_moves hahead hmoves g (List.mem_append_left _ hg)
  case bytes => exact hlifted.after
  case layers => exact hbelow.mono (keeps_of_moves hahead hmoves hchanged) step

end Workspace.Stacked

/-! ## Runs -/

namespace Service

variable {s : Service} {w₀ w w' : Workspace} {o : Operation} {r : Except Fault Unit}
  {steps : List Step} {p : Path} {dir : Place} {n : String}

/-- What an operation writes is no copy of before, and none of the project's files but those that it
edits. -/
theorem not_taken_of_written (hw : w.Sound) (hahead : w.Ahead) {t : FileTree} {m : String}
    {q : Place} (h : (∃ f ∈ w.store.records.fixes, w.tree.FileAt f.file (q ++ [m])) ∨
      Backup.Next w t s.applier.backups (q ++ [m]) ∨ Store.FileOf w (q ++ [m])) : ¬ Taken w m := by
  rcases h with ⟨f, hf, hfile⟩ | hnext | hstore
  · obtain ⟨q', m', hfile', hm'⟩ := (hw.fix_source f hf).exists_concat
    obtain ⟨-, rfl⟩ : q = q' ∧ m = m' := by simpa using hfile.unique hfile'
    exact fun htaken => hm' htaken.isName.reserved
  · exact hnext.not_taken hahead
  · exact not_taken_of_mem_files w hstore.mem_files

theorem not_written_of_not_reserved {t : FileTree} (hn : ¬ Reserved n)
    (h : Backup.Next w t s.applier.backups (dir ++ [n]) ∨ Store.FileOf w (dir ++ [n])) : False := by
  rcases h with ⟨source, q, m, hm, -, hq⟩ | hstore
  · obtain ⟨-, rfl⟩ : dir = q ∧ n = m := by simpa using hq
    exact hn (reserved_of_mem_names hm)
  · exact hn (Or.inl hstore.mem_files)

/-- A file of the project was there before the operation. -/
theorem Does.fileAt_before (h : s.Does w o r w') (hn : ¬ Reserved n)
    (hp : w'.tree.FileAt p (dir ++ [n])) : w.tree.FileAt p (dir ++ [n]) := by
  refine ⟨hp.path_eq, hp.proper, ?_⟩
  obtain ⟨bytes, hbytes⟩ := hp.file
  rcases h.moves.tree.new_file hbytes with (⟨-, f, -, hfile, -⟩ | hwritten) | hsame
  · exact hfile.file
  · exact (not_written_of_not_reserved hn hwritten).elim
  · exact ⟨bytes, hsame⟩

/-- An operation that does not edit a file leaves the applied fixes of the file alone. -/
theorem Does.applied_iff (h : s.Does w o r w') (hw : w.Sound) {place : Place}
    (hp : w.tree.FileAt p place) (hedits : ¬ Edits w o r place) (g : Fix) :
    w'.Applied g ∧ g.file = p ↔ w.Applied g ∧ g.file = p := by
  cases h with
  | refused => exact Iff.rfl
  | suggests _ h =>
    obtain ⟨news, hfixes, hnews⟩ := h.fixes
    refine and_congr_left' ?_
    rw [Workspace.Applied, Workspace.Applied, hfixes, List.mem_append]
    constructor
    · rintro ⟨hg | hg, hstatus⟩
      · exact ⟨hg, hstatus⟩
      · rcases (hnews g hg).pending_or_confirmed with hopen | hopen <;>
          cases hstatus.symm.trans hopen
    · exact fun hg => ⟨Or.inl hg.1, hg.2⟩
  | confirms hf hstatus h =>
    exact and_congr_left' (hw.applied_put_of_ne hf h.fixes_eq rfl (by rw [hstatus]; decide)
      (by simp [confirmed]) g)
  | rejects hf hstatus h =>
    exact and_congr_left' (hw.applied_put_of_ne hf h.fixes_eq rfl (by rw [hstatus]; decide)
      (by simp [rejected]) g)
  | fails hf hstatus h =>
    exact and_congr_left' (hw.applied_put_of_ne hf h.fixes_eq rfl (by rw [hstatus]; decide)
      (by simp [failed]) g)
  | sticks _ _ h => rw [Workspace.Applied, Workspace.Applied, h.fixes_eq]
  | @applies f _ _ _ _ _ _ hf hstatus h =>
    refine hw.applied_put_of_file hf h.turns.fixes_eq rfl rfl (fun hfile =>
      hedits ⟨rfl, f, hf, ?_, Or.inl ⟨rfl, hstatus⟩⟩) g
    rw [hfile]
    exact hp
  | @lifts f _ _ _ _ _ hf _ _ h =>
    refine hw.applied_put_of_file hf.1.1 h.turns.fixes_eq rfl rfl (fun hfile =>
      hedits ⟨rfl, f, hf.1.1, ?_, Or.inr ⟨rfl, hf.1.2⟩⟩) g
    rw [hfile]
    exact hp

/-- Every operation leaves a file under layers. -/
theorem Does.exists_stacked (h : s.Does w o r w') (hw : w.Sound) (hahead : w.Ahead) (hn : ¬ Reserved n)
    (hp : w.tree.FileAt p (dir ++ [n])) {original current : ByteArray} {fs : List Fix}
    (hstacked : w.Stacked steps p (dir ++ [n]) original fs current) :
    ∃ fs' current', w'.Stacked (⟨o, r, w, w'⟩ :: steps) p (dir ++ [n]) original fs' current' := by
  have hplace : ∀ {q : Place} {m : String}, q ++ [m] = dir ++ [n] → ¬ Taken w m := by
    intro q m hq htaken
    obtain ⟨-, rfl⟩ : q = dir ∧ m = n := by simpa using hq
    exact hn htaken.isName.reserved
  by_cases hedits : Edits w o r (dir ++ [n])
  · cases h with
    | refused => cases hedits.1
    | fails => cases hedits.1
    | sticks => cases hedits.1
    | suggests ho =>
      obtain ⟨-, f, -, -, ⟨rfl, -⟩ | ⟨rfl, -⟩⟩ := hedits <;> cases ho
    | confirms => obtain ⟨-, f, -, -, ⟨hf, -⟩ | ⟨hf, -⟩⟩ := hedits <;> cases hf
    | rejects => obtain ⟨-, f, -, -, ⟨hf, -⟩ | ⟨hf, -⟩⟩ := hedits <;> cases hf
    | @applies f outcome now place' old new _ hf hstatus hlaid =>
      obtain ⟨-, g, hg, hgfile, ⟨hid, -⟩ | ⟨hid, -⟩⟩ := hedits
      · obtain rfl := hw.eq_of_id hf hg (Operation.apply.inj hid)
        obtain rfl := hlaid.fileAt.unique hgfile
        refine ⟨_, _, hstacked.lay hw hahead hf hstatus (hgfile.path_eq.trans hp.path_eq.symm) hlaid
          ?_ rfl⟩
        rintro q m (hq | hq)
        · exact hplace hq
        · exact not_taken_of_written hw hahead (Or.inr hq)
      · cases hid
    | @lifts f backup bytes now place' _ hf hbackup hbytes hlifted =>
      obtain ⟨-, g, hg, hgfile, ⟨hid, -⟩ | ⟨hid, -⟩⟩ := hedits
      · cases hid
      · obtain rfl := hw.eq_of_id hf.1.1 hg (Operation.rollback.inj hid)
        obtain rfl := hlifted.fileAt.unique hgfile
        obtain ⟨below, rfl⟩ := hstacked.exists_top hf (hgfile.path_eq.trans hp.path_eq.symm)
        refine ⟨below, bytes, (hstacked.lift hw hahead hbackup hbytes hlifted ?_ _).1⟩
        rintro q m (hq | hq)
        · exact hplace hq
        · exact not_taken_of_mem_files w hq.mem_files
  · refine ⟨fs, current, hstacked.keep hahead h.moves ?_ ?_ (h.applied_iff hw hp hedits) _⟩
    · rintro (hedits' | hwritten)
      · exact hedits hedits'
      · exact not_written_of_not_reserved hn hwritten
    · rintro q m (⟨-, f, hf, hfile, -⟩ | hwritten)
      · exact not_taken_of_written (s := s) (t := w.tree) hw hahead (Or.inl ⟨f, hf, hfile⟩)
      · exact not_taken_of_written hw hahead (Or.inr hwritten)

/-- Every source file is under layers after a run. -/
theorem Runs.exists_stacked (h : s.Runs Workspace.Left w₀ steps w) (hw₀ : s.Fresh w₀)
    (hahead : w₀.Ahead) (hn : ¬ Reserved n) (hp : w.tree.FileAt p (dir ++ [n])) :
    w.Ahead ∧ ∃ original fs current, w₀.tree.get? (dir ++ [n]) = some (.file original) ∧
      w.Stacked steps p (dir ++ [n]) original fs current := by
  refine ((h.sound_and (I := fun steps w => w.tree.FileAt p (dir ++ [n]) →
    w.Ahead ∧ ∃ original fs current, w₀.tree.get? (dir ++ [n]) = some (.file original) ∧
      w.Stacked steps p (dir ++ [n]) original fs current) hw₀ Workspace.Left.meddled ?_ ?_ ?_).2 hp)
  · intro hp
    obtain ⟨bytes, hbytes⟩ := hp.file
    refine ⟨hahead, bytes, [], bytes, hbytes, ?_⟩
    exact ⟨by simp [Workspace.Applied, hw₀.empty], .nil, by simp, hbytes, .bare⟩
  · intro steps w o r w' hw hbefore hdoes hp
    have hp' := hdoes.fileAt_before hn hp
    obtain ⟨hahead, original, fs, current, horiginal, hstacked⟩ := hbefore hp'
    obtain ⟨fs', current', hstacked'⟩ := hdoes.exists_stacked hw hahead hn hp' hstacked
    exact ⟨hdoes.moves.ahead hahead, original, fs', current', horiginal, hstacked'⟩
  · intro steps w w' hw hbefore hleft
    obtain rfl := hleft
    exact hbefore

/-! ## Rolling back -/

end Service

namespace Workspace

/-- The fix was rolled back and nothing else: its file has the bytes from before it, and all other
files, but for those of the store, and all other fixes are as they were. -/
structure Undone (w : Workspace) (f : Fix) (place : Place) (old : ByteArray) (w' : Workspace) :
    Prop where
  bytes : w'.tree.get? place = some (.file old)
  others : ∀ q, q ≠ place → ¬ Store.FileOf w q → w'.tree.bytes? q = w.tree.bytes? q
  fixes : ∃ now, w'.store.records.fixes =
    Records.put Fix.id (Service.rolledBack f now) w.store.records.fixes

theorem Lifted.undone {w w' : Workspace} {f : Fix} {backup : Path} {now : Time} {place : Place}
    {bytes : ByteArray} (h : w.Lifted f backup now place bytes w') : w.Undone f place bytes w' where
  bytes := h.after
  others _ hq hstore := h.turns.moves.tree.bytes?_eq (not_or.mpr ⟨hq, hstore⟩)
  fixes := ⟨now, h.turns.fixes_eq⟩

namespace Stacked

variable {w w' : Workspace} {steps : List Service.Step} {p : Path} {dir : Place} {n : String}
  {original current : ByteArray} {fs : List Fix}

/-- The last layer can be taken away, unless the disk refuses. -/
theorem exec_rollback {f : Fix} (h : w.Stacked steps p (dir ++ [n]) original (fs ++ [f]) current)
    (hw : w.Sound) (hahead : w.Ahead) (hn : ¬ Reserved n) (hp : w.tree.FileAt p (dir ++ [n])) :
    (∃ fault w', exec (Service.rollback f.id) w = (.error fault, w') ∧ ¬ w.disk.Willing) ∨
    ∃ old now w', exec (Service.rollback f.id) w = (.ok (Service.rolledBack f now), w') ∧
      w.Undone f (dir ++ [n]) old w' ∧ Service.Wrote steps (dir ++ [n]) f old current ∧
      w'.Sound ∧ w.Precedes w' ∧ w'.tree.FileAt p (dir ++ [n]) ∧
      w'.Stacked (⟨.rollback f.id, .ok (), w, w'⟩ :: steps) p (dir ++ [n]) original fs old := by
  obtain ⟨old, -, ⟨backup, hbackup, hkept⟩, -⟩ := h.layers.top
  rcases Service.exec_rollback_newest hw h.newest hbackup with
    ⟨fault, now, w', hexec, hnot, -⟩ | ⟨bytes, now, place, w', hread, hexec, hlifted⟩
  · exact Or.inl ⟨fault, w', hexec, fun hdisk => hnot old hkept.verifiedBytes (hdisk.takes _ _)⟩
  · refine Or.inr ⟨bytes, now, w', hexec, ?_⟩
    obtain rfl : place = dir ++ [n] :=
      hlifted.fileAt.unique (((h.applied f).mp (by simp)).2.symm ▸ hp)
    obtain ⟨hstacked, hwrote⟩ := h.lift hw hahead hbackup hread hlifted (by
      rintro q m (hq | hq)
      · obtain ⟨-, rfl⟩ : q = dir ∧ m = n := by simpa using hq
        exact fun htaken => hn htaken.isName.reserved
      · exact not_taken_of_mem_files w hq.mem_files) ⟨.rollback f.id, .ok (), w, w'⟩
    exact ⟨hlifted.undone, hwrote, hlifted.turns.sound, hlifted.turns.moves.toPrecedes,
      hp.becomes hlifted.turns.moves.tree, hstacked⟩

end Stacked

end Workspace

namespace Service

variable {s : Service} {w₀ w w' : Workspace} {steps : List Step} {p : Path} {place : Place}

/-! ## Two fixes of one file -/

/-- A confirmed fix of the file. -/
structure Proposed (f : Fix) (line : Nat) (old new : String) : Prop where
  file : f.file = ⟨"/w/a.ts"⟩
  status : f.status = .confirmed
  line : f.line = line
  replaced : f.replacedCode = old
  suggested : f.suggestedCode = new

/-- A fix that is located on the line that it replaces is put there. -/
theorem Proposed.patched {f : Fix} {line : Nat} {old new content result : String}
    (h : Proposed f line old new) (start : Nat)
    (hat : ({} : Patch.Locator).locate ((Text.pieces content.toList).map Text.stripTerminator)
      (Text.rows old.toList) line = .exact start ∧
      (((Text.pieces content.toList).map Text.stripTerminator).drop start).take
        (Text.rows old.toList).length = Text.rows old.toList ∧
      Patch.spliceLines content.toList start (Text.rows old.toList).length
        (Text.rows new.toList) = result.toList) :
    (Patch.patched {} content.toList f .typeScript).1 = result.toList := by
  obtain ⟨-, -, rfl, rfl, rfl⟩ := h
  rw [Patch.patched_of_located .typeScript hat.1 hat.2.1]
  exact hat.2.2

end Service

end Mend
