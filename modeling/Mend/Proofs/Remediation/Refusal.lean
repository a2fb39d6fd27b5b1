import Mend.Proofs.Remediation.Run

/-!
# Refused operations

An operation looks at the records before it touches anything (`Operation.Admitted`). Where it does
not find what it needs, it is refused (`Work.Refused`): it fails with a fault that says so, and leaves
everything as it was. An operation that is not refused may still fail, but with another fault
(`Work.Late`), whatever it has done by then. So the fault alone tells whether anything was touched
(`Service.isPrecondition_iff`).
-/

namespace Mend

open Work (exec)

/-- The fixes are as they were. Ids were given out and lines were added to the audit trail at
most. -/
structure Workspace.KeepsFixes (w w' : Workspace) : Prop where
  fixes : w'.store.records.fixes = w.store.records.fixes
  trail : w.store.records.applications <+: w'.store.records.applications
  serial : w.serial ≤ w'.serial

theorem Workspace.KeepsFixes.refl (w : Workspace) : w.KeepsFixes w :=
  ⟨rfl, List.prefix_rfl, le_rfl⟩

theorem Workspace.KeepsFixes.trans {w w' w'' : Workspace} (h : w.KeepsFixes w')
    (h' : w'.KeepsFixes w'') : w.KeepsFixes w'' :=
  ⟨h'.fixes.trans h.fixes, h.trail.trans h'.trail, h.serial.trans h'.serial⟩

namespace Work

variable {α β : Type} {w : Workspace} {x : Work α} {f : α → Work β}

/-! ## Refused and late -/

/-- The operation fails with a fault that is found before anything is touched, and touches nothing. -/
def Refused (w : Workspace) (x : Work α) : Prop :=
  ∃ e, exec x w = (.error e, w) ∧ e.isPrecondition = true

/-- No fault of the operation is one that is found before anything is touched. -/
def Late (w : Workspace) (x : Work α) : Prop :=
  ∀ e, (exec x w).1 = .error e → e.isPrecondition = false

theorem Refused.bind (h : Refused w x) : Refused w (x >>= f) := by
  obtain ⟨e, hexec, he⟩ := h
  exact ⟨e, by rw [exec_bind, hexec], he⟩

/-- After an operation that only looks. -/
theorem Refused.look {a : α} (hx : exec x w = (.ok a, w)) (h : Refused w (f a)) :
    Refused w (x >>= f) := by
  rw [Refused, exec_bind, hx]
  exact h

theorem Refused.map (h : Refused w x) (g : α → β) : Refused w (g <$> x) := by
  obtain ⟨e, hexec, he⟩ := h
  exact ⟨e, by rw [exec_map, hexec]; rfl, he⟩

namespace Late

theorem pure (a : α) : Late w (pure a) := fun _ h => by cases h

theorem throw {e : Fault} (he : e.isPrecondition = false) : Late w (throw e : Work α) := by
  rintro _ ⟨⟩
  exact he

theorem bind (hx : Late w x) (hf : ∀ a w', exec x w = (.ok a, w') → Late w' (f a)) :
    Late w (x >>= f) := by
  intro e he
  rw [exec_bind] at he
  rcases hexec : exec x w with ⟨r, w'⟩
  rw [hexec] at he
  cases r with
  | error e' =>
    rw [Late, hexec] at hx
    exact hx e (by simpa using he)
  | ok a => exact hf a w' hexec e he

/-- After an operation that only looks. -/
theorem look {a : α} (hx : exec x w = (.ok a, w)) (h : Late w (f a)) : Late w (x >>= f) := by
  rw [Late, exec_bind, hx]
  exact h

theorem map (h : Late w x) (g : α → β) : Late w (g <$> x) := by
  intro e he
  rw [exec_map] at he
  refine h e ?_
  cases hr : (exec x w).1 with
  | ok a => simp [hr, Except.map] at he
  | error e' => simpa [hr, Except.map] using he

theorem attempt : Late w x.attempt := fun _ h => by cases h

end Late

/-! ## Operations that keep the fixes -/

/-- The operation keeps the fixes as they are, and is late wherever it starts. -/
structure Plain (x : Work α) : Prop where
  keeps : ∀ w : Workspace, w.KeepsFixes (exec x w).2
  late : ∀ w, Late w x

namespace Plain

theorem fixes (hx : Plain x) (w : Workspace) :
    (exec x w).2.store.records.fixes = w.store.records.fixes :=
  (hx.keeps w).fixes

/-- What gives a result wherever it starts. -/
theorem of_ok {r : Workspace → α} {g : Workspace → Workspace}
    (hx : ∀ w, exec x w = (.ok (r w), g w)) (hkeeps : ∀ w : Workspace, w.KeepsFixes (g w)) :
    Plain x where
  keeps w := by
    rw [hx]
    exact hkeeps w
  late w e he := by
    rw [hx] at he
    cases he

theorem pure (a : α) : Plain (pure a : Work α) := .of_ok (exec_pure a) .refl

theorem throw {e : Fault} (he : e.isPrecondition = false) : Plain (throw e : Work α) :=
  ⟨.refl, fun _ => .throw he⟩

theorem bind (hx : Plain x) (hf : ∀ a, Plain (f a)) : Plain (x >>= f) where
  keeps w := by
    have hkeeps := hx.keeps w
    rw [exec_bind]
    rcases hexec : exec x w with ⟨r, w'⟩
    rw [hexec] at hkeeps
    cases r with
    | error e => exact hkeeps
    | ok a => exact hkeeps.trans ((hf a).keeps w')
  late w := (hx.late w).bind fun a w' _ => (hf a).late w'

/-- What follows starts with the same fixes. -/
theorem bind_late (hx : Plain x)
    (hf : ∀ a w', w'.store.records.fixes = w.store.records.fixes → Late w' (f a)) :
    Late w (x >>= f) := by
  refine (hx.late w).bind fun a w' hexec => hf a w' ?_
  have hfixes := hx.fixes w
  rwa [hexec] at hfixes

theorem now : Plain now := .of_ok exec_now fun _ => ⟨rfl, List.prefix_rfl, le_rfl⟩

theorem freshId : Plain freshId :=
  .of_ok exec_freshId fun _ => ⟨rfl, List.prefix_rfl, Nat.le_succ _⟩

theorem get : Plain (get : Work Workspace) := .of_ok exec_get .refl

theorem tree : Plain tree := .of_ok exec_tree .refl

theorem reading (p : Path) (g : FileTree → Except IoError α) : Plain (reading p g) where
  keeps w := by
    rw [exec_reading]
    exact .refl w
  late w e he := by
    rw [exec_reading] at he
    cases hg : g w.tree with
    | ok a => simp [hg, Except.mapError] at he
    | error cause =>
      obtain rfl : Fault.io p cause = e := by simpa [hg, Except.mapError] using he
      rfl

theorem changing (p : Path) (g : FileTree → Except IoError FileTree) : Plain (changing p g) where
  keeps w := by
    rw [exec_changing]
    split <;> exact ⟨rfl, List.prefix_rfl, le_rfl⟩
  late w e he := by
    rw [exec_changing] at he
    split at he
    · cases he
    · obtain rfl := Except.error.inj he
      rfl

theorem write (p : Path) (bytes : ByteArray) : Plain (write p bytes) := by
  refine .bind .get fun w => ?_
  split
  · exact .of_ok (exec_modify _) fun _ => ⟨rfl, List.prefix_rfl, le_rfl⟩
  all_goals exact .throw rfl

end Plain

end Work

open Work (Refused Late Plain)

/-! ## Files and the trail -/

theorem Backup.plain_create (dir source : Path) (bytes : ByteArray) :
    Plain (create dir source bytes) := by
  refine .bind (.changing _ _) fun _ => .bind .now fun now => .bind .freshId fun id => ?_
  exact .bind (.write _ _) fun _ => .bind (.write _ _) fun _ => .pure _

theorem Backup.plain_restore (backup target : Path) : Plain (restore backup target) := by
  refine .bind (.bind (.reading _ _) fun raw => ?_) fun bytes => .write _ _
  split
  · exact .throw rfl
  · refine .bind (.reading _ _) fun bytes => ?_
    split
    · exact .pure _
    · exact .throw rfl

theorem Patch.plain_target (file : Path) : Plain (target file) := by
  refine .bind .tree fun t => ?_
  split <;> exact .pure _

theorem Patch.Applier.plain_apply (a : Applier) (f : Fix) : Plain (a.apply f) := by
  refine .bind (plain_target _) fun path => .bind (.reading _ _) fun old => ?_
  refine .bind (Backup.plain_create _ _ _) fun backup => ?_
  generalize patched a.locator old.toList f (languageOf path) = result
  refine .bind (.write _ _) fun _ => ?_
  simp only
  split
  · split
    · exact .pure _
    · refine .bind (Backup.plain_restore _ _) fun _ => .bind (.throw ?_) fun _ => .pure _
      rfl
  · exact .pure _

theorem Patch.Applier.plain_rollback (file backup : Path) : Plain (rollback file backup) :=
  .bind (plain_target _) fun path => Backup.plain_restore _ path

theorem Store.plain_persist (file : String) (items : List Data) : Plain (persist file items) := by
  refine .bind .get fun w => ?_
  split
  · exact .pure _
  · exact .write _ _

theorem Store.plain_append (a : Application) : Plain (append a) := by
  have hrecord : Plain (do setRecords ((← current).append a)) :=
    ⟨fun _ => ⟨rfl, List.prefix_append _ _, le_rfl⟩, fun _ _ h => by cases h⟩
  refine .bind .get fun w => ?_
  split
  · exact hrecord
  · exact .bind (.changing _ _) fun _ => hrecord

theorem Store.late_persistFixes (w : Workspace) : Late w persistFixes :=
  .look (exec_current w) ((plain_persist _ _).late w)

theorem Store.late_saveFix (w : Workspace) (f : Fix) : Late w (saveFix f) :=
  .look (exec_current w) (.bind (fun _ h => by cases h) fun _ w' _ => late_persistFixes w')

/-- A fix that was found can be replaced as long as the fixes are kept. -/
theorem Store.late_updateFix {w w' : Workspace} {id : String} {f f' : Fix}
    (hf : w.store.records.fix? id = some f)
    (h : w'.store.records.fixes = w.store.records.fixes) (hid : f'.id = f.id) :
    Late w' (updateFix f') := by
  have hsome : (w'.store.records.fix? f'.id).isSome := by
    rw [Records.fix?, h, List.find?_isSome]
    exact ⟨f, (Records.fix?_eq_some hf).1, by simp [hid]⟩
  refine .look (exec_current w') (.look (a := w'.store.records.saveFix f') ?_ ?_)
  · rw [Work.exec_ofExcept, Records.updateFix, if_pos hsome]
  · exact .bind (fun _ h => by cases h) fun _ w'' _ => late_persistFixes w''

/-! ## Operations behind a check -/

/-- The operation is refused unless a condition holds, and late if it does. -/
def Work.Gated {α : Type} (w : Workspace) (condition : Prop) (x : Work α) : Prop :=
  ¬ condition ∧ Refused w x ∨ condition ∧ Late w x

open Work (Gated)

namespace Service

variable {α : Type} {w : Workspace}

theorem gated_map {x : Work α} {condition : Prop} (h : Gated w condition x) :
    Gated w condition ((fun _ => ()) <$> x) :=
  h.imp (fun h => ⟨h.1, h.2.map _⟩) fun h => ⟨h.1, h.2.map _⟩

theorem gated_congr {x : Work α} {condition condition' : Prop} (h : Gated w condition x)
    (hiff : condition ↔ condition') : Gated w condition' x := by
  rwa [Gated, ← hiff]

/-- What is done with a fix needs the fix. -/
theorem gated_fix {g : Fix → Work α} {condition : Fix → Prop} (id : String)
    (h : ∀ f, w.store.records.fix? id = some f → Gated w (condition f) (g f)) :
    Gated w (∃ f, w.store.records.fix? id = some f ∧ condition f) (fix id >>= g) := by
  cases hfix : w.store.records.fix? id with
  | none => exact Or.inl ⟨by simp, .bind ⟨_, exec_fix_of_none hfix, rfl⟩⟩
  | some f =>
    refine (h f hfix).imp ?_ ?_
    · rintro ⟨hnot, hrefused⟩
      refine ⟨?_, .look (exec_fix_of_some hfix) hrefused⟩
      rintro ⟨f', ⟨⟩, hf'⟩
      exact hnot hf'
    · rintro ⟨hcondition, hlate⟩
      exact ⟨⟨f, rfl, hcondition⟩, .look (exec_fix_of_some hfix) hlate⟩

/-- What is done with an issue needs the issue. -/
theorem gated_issue {g : Issue → Work α} (id : String) (h : ∀ i, Late w (g i)) :
    Gated w (w.store.records.issue? id).isSome (issue id >>= g) := by
  have hlook : exec (Store.issue? id) w = (.ok (w.store.records.issue? id), w) := rfl
  cases hissue : w.store.records.issue? id with
  | none =>
    refine Or.inl ⟨by simp, .bind ⟨.issueNotFound id, ?_, rfl⟩⟩
    rw [issue, Work.exec_bind, hlook, hissue]
    rfl
  | some i =>
    refine Or.inr ⟨rfl, .look (a := i) ?_ (h i)⟩
    rw [issue, Work.exec_bind, hlook, hissue]
    rfl

/-- A step of a fix needs the status for it. -/
theorem gated_ensure {f : Fix} {e : FixEvent} {g : FixStatus → Work α} {c : Prop}
    (h : f.status = e.needs → Gated w c (g e.gives)) :
    Gated w (f.status = e.needs ∧ c) (Work.ofExcept (f.ensure e) >>= g) := by
  by_cases hstatus : f.status = e.needs
  · have hlook : exec (Work.ofExcept (f.ensure e)) w = (.ok e.gives, w) := by
      rw [Work.exec_ofExcept, Fix.ensure_of_status hstatus]
    refine (h hstatus).imp ?_ ?_
    · exact fun ⟨hnot, hrefused⟩ => ⟨fun hboth => hnot hboth.2, .look hlook hrefused⟩
    · exact fun ⟨hc, hlate⟩ => ⟨⟨hstatus, hc⟩, .look hlook hlate⟩
  · refine Or.inl ⟨fun hboth => hstatus hboth.1, .bind ⟨.invalidState f.id f.status e.action, ?_, rfl⟩⟩
    rw [Work.exec_ofExcept, Fix.ensure, FixStatus.next?_eq, if_neg hstatus]

theorem gated_transition {f : Fix} {e : FixEvent} {g : Fix → Work α}
    (h : f.status = e.needs → Late w (g { f with status := e.gives })) :
    Gated w (f.status = e.needs) (Work.ofExcept (f.transition e) >>= g) := by
  by_cases hstatus : f.status = e.needs
  · refine Or.inr ⟨hstatus, .look ?_ (h hstatus)⟩
    rw [Work.exec_ofExcept, Fix.transition_of_status hstatus]
  · refine Or.inl ⟨hstatus, .bind ⟨.invalidState f.id f.status e.action, ?_, rfl⟩⟩
    rw [Work.exec_ofExcept, Fix.transition, Fix.ensure, FixStatus.next?_eq, if_neg hstatus]
    rfl

/-! ## The operations -/

theorem late_uncut (r : Except Text.BadOffset α) : Late w (uncut r) := by
  cases r with
  | ok a => exact .pure a
  | error e => exact .throw rfl

theorem plain_matchKnown (known : List Issue) :
    ∀ findings : List Finding, Plain (matchKnown known findings)
  | [] => .pure _
  | f :: findings => by
    rw [matchKnown]
    split
    · exact .bind (plain_matchKnown known findings) fun _ => .pure _
    · refine .bind (.bind .freshId fun id => .bind .now fun now => .pure _) fun i => ?_
      exact .bind (plain_matchKnown known findings) fun _ => .pure _

theorem late_persistIssues (w : Workspace) : Late w Store.persistIssues :=
  .look (Store.exec_current w) ((Store.plain_persist _ _).late w)

theorem late_deleteIssues (w : Workspace) (ids : List String) : Late w (Store.deleteIssues ids) := by
  rw [Store.deleteIssues]
  split
  · exact .pure _
  · refine .look (Store.exec_current w) (.bind (fun _ h => by cases h) fun _ w₁ _ => ?_)
    exact .bind (late_persistIssues w₁) fun _ _ _ => .pure _

theorem late_scan (w : Workspace) (walk : Walk) (platform : Platform) (o : ScanOptions)
    (switch : Switch) : Late w (scan walk platform o switch) := by
  have hsave : ∀ (fresh : List Issue) (outcome : ScanOutcome) (w : Workspace),
      Late w (do Store.saveIssues fresh; pure outcome) := by
    intro fresh outcome w
    refine .bind (.look (Store.exec_current w) ?_) fun _ _ _ => .pure _
    exact .bind (fun _ h => by cases h) fun _ w' _ => late_persistIssues w'
  refine .bind (.bind ((Plain.reading _ _).late w) fun root w₁ _ => ?_) fun s w₂ _ => ?_
  · exact .look (Work.exec_tree w₁) (.pure _)
  refine .look (Work.exec_tree w₂) (.bind (late_uncut _) fun report w₃ _ => ?_)
  refine .look (a := w₃.store.records.listIssues _) rfl ?_
  refine .bind ((plain_matchKnown _ _).late w₃) fun ⟨issues, fresh⟩ w₄ _ => ?_
  simp only
  split
  · exact hsave _ _ w₄
  · exact .bind (late_deleteIssues w₄ _) fun resolved w₅ _ => hsave _ _ w₅

variable (s : Service)

theorem late_synthesize (w : Workspace) (i : Issue) (retryOf : Option String) :
    Late w (s.synthesize i retryOf) := by
  have hsave : ∀ (f : Fix) (w : Workspace), Late w (do Store.saveFix f; pure (some f)) :=
    fun f w => .bind (Store.late_saveFix w f) fun _ _ _ => .pure _
  refine .bind ((Plain.reading _ _).late w) fun content w₁ _ => ?_
  refine .bind (late_uncut _) fun c w₂ _ => ?_
  cases c with
  | none => exact .pure _
  | some c =>
    refine .bind (Plain.freshId.late w₂) fun id w₃ _ => .bind (Plain.now.late w₃) fun now w₄ _ => ?_
    simp only
    split
    · rw [Fix.transition_of_status rfl]
      exact .look (Work.exec_ofExcept _ _) (hsave _ w₄)
    · exact hsave _ w₄

theorem gated_suggest (w : Workspace) (issueId : String) :
    Gated w (w.store.records.issue? issueId).isSome (s.suggest issueId) := by
  refine gated_issue issueId fun i => ?_
  refine .look (a := w.store.records.listFixes _) rfl ?_
  split
  · exact .pure _
  · exact late_synthesize s w i none

theorem late_suggestEach :
    ∀ (ids : List String) (out : Suggestions) (w : Workspace), Late w (s.suggestEach ids out)
  | [], _, _ => .pure _
  | id :: ids, out, w => by
    refine .bind .attempt fun r w₁ _ => ?_
    split
    · exact late_suggestEach ids _ w₁
    · exact late_suggestEach ids _ w₁
    · exact .throw rfl
    · exact .throw rfl
    · exact late_suggestEach ids _ w₁

theorem gated_confirm (w : Workspace) (id : String) :
    Gated w (∃ f, w.store.records.fix? id = some f ∧ f.status = .pending) (confirm id) := by
  refine gated_fix id fun f hf => gated_transition (e := .confirm) fun _ => ?_
  refine Plain.now.bind_late fun now w₁ h₁ => ?_
  exact .bind (Store.late_updateFix hf h₁ rfl) fun _ _ _ => .pure _

theorem gated_reject (w : Workspace) (id : String) :
    Gated w (∃ f, w.store.records.fix? id = some f ∧ f.status = .pending) (reject id) := by
  refine gated_fix id fun f hf => gated_transition (e := .reject) fun _ => ?_
  exact .bind (Store.late_updateFix hf rfl rfl) fun _ _ _ => .pure _

theorem gated_retry (w : Workspace) (id : String) :
    Gated w (∃ f, w.store.records.fix? id = some f ∧ f.status = .failed ∧
      (w.store.records.issue? f.issueId).isSome) (s.retry id) := by
  refine gated_fix id fun f _ => ?_
  simp only
  split
  · next hstatus => exact Or.inl ⟨fun h => hstatus h.1, .bind ⟨_, rfl, rfl⟩⟩
  · next hstatus =>
    refine gated_congr (gated_issue _ fun i => late_synthesize s w i _) ?_
    exact (and_iff_right (not_not.mp hstatus)).symm

theorem late_recordApplied {w' : Workspace} {id : String} {f : Fix}
    (hf : w.store.records.fix? id = some f) (hstatus : f.status = .confirmed)
    (h : w'.store.records.fixes = w.store.records.fixes) (outcome : Patch.Outcome) :
    Late w' (recordApplied f outcome) := by
  rw [recordApplied, Fix.transition_of_status hstatus]
  refine .look (Work.exec_ofExcept _ _) (Plain.now.bind_late fun now w₁ h₁ => ?_)
  refine (Store.plain_append _).bind_late fun _ w₂ h₂ => ?_
  refine .bind (Store.late_updateFix hf ?_ rfl) fun _ _ _ => .pure _
  exact h₂.trans (h₁.trans h)

theorem late_recordFailed {w' : Workspace} {id : String} {f : Fix}
    (hf : w.store.records.fix? id = some f) (hstatus : f.status = .confirmed)
    (h : w'.store.records.fixes = w.store.records.fixes) (fault : Fault) :
    Late w' (recordFailed f fault) := by
  rw [recordFailed, Fix.transition_of_status (e := .applyFailed) hstatus]
  refine .look (Work.exec_ofExcept _ _) (Plain.now.bind_late fun now w₁ h₁ => ?_)
  refine (Store.plain_append _).bind_late fun _ w₂ h₂ => ?_
  exact Store.late_updateFix hf (h₂.trans (h₁.trans h)) rfl

theorem gated_apply (w : Workspace) (id : String) :
    Gated w (∃ f, w.store.records.fix? id = some f ∧ f.status = .confirmed) (s.apply id) := by
  refine gated_fix id fun f hf => ?_
  refine gated_congr (gated_ensure (e := .applySucceeded) (c := True) fun hstatus =>
    Or.inr ⟨trivial, ?_⟩) (iff_of_eq (and_true _))
  have hplain := s.applier.plain_apply f
  refine .bind .attempt fun r w₁ hexec => ?_
  rw [Work.exec_attempt] at hexec
  obtain ⟨rfl, rfl⟩ : (exec (s.applier.apply f) w).1 = r ∧ (exec (s.applier.apply f) w).2 = w₁ := by
    simpa using hexec
  split
  · exact late_recordApplied hf hstatus (hplain.fixes w) _
  · next fault hfault =>
    refine .bind (late_recordFailed hf hstatus (hplain.fixes w) fault) fun _ _ _ => .throw ?_
    exact hplain.late w fault hfault

/-- Another fix of the same file was applied later. -/
def HasLater (r : Records) (f : Fix) : Prop :=
  ∃ g ∈ r.fixes, g.status = .applied ∧ g.file.same f.file = true ∧ g.id ≠ f.id ∧
    laterThan g.appliedAt f.appliedAt = true

theorem exec_hasLaterFix_iff (w : Workspace) (f : Fix) :
    ∃ b, exec (hasLaterFix f) w = (.ok b, w) ∧ (b = true ↔ HasLater w.store.records f) := by
  refine ⟨_, rfl, ?_⟩
  simp [HasLater, Records.listFixes, FixFilter.accepts, and_assoc]

theorem late_finishRollback {w' : Workspace} {id : String} {f : Fix}
    (hf : w.store.records.fix? id = some f) (hstatus : f.status = .applied) (backup : Path)
    (h : w'.store.records.fixes = w.store.records.fixes) {result : Except Fault Unit}
    (hresult : ∀ e, result = .error e → e.isPrecondition = false) :
    Late w' (finishRollback f backup result) := by
  refine Plain.now.bind_late fun now w₁ h₁ => ?_
  refine (Store.plain_append _).bind_late fun _ w₂ h₂ => ?_
  cases result with
  | error e => exact .bind (.throw (hresult e rfl)) fun _ w₃ h₃ => by cases h₃
  | ok =>
    rw [Fix.transition_of_status hstatus]
    refine .look (Work.exec_ofExcept _ _) (.look (Work.exec_ofExcept _ _) ?_)
    refine .bind (Store.late_updateFix hf ?_ rfl) fun _ _ _ => .pure _
    exact h₂.trans (h₁.trans h)

theorem gated_rollback (w : Workspace) (id : String) :
    Gated w (∃ f, w.store.records.fix? id = some f ∧ f.status = .applied ∧ f.backupPath.isSome ∧
      ¬ HasLater w.store.records f) (rollback id) := by
  refine gated_fix id fun f hf => gated_ensure (e := .rollBack) fun hstatus => ?_
  cases hbackup : f.backupPath with
  | none => exact Or.inl ⟨by simp, ⟨_, rfl, rfl⟩⟩
  | some backup =>
    obtain ⟨b, hlook, hb⟩ := exec_hasLaterFix_iff w f
    cases b with
    | true =>
      refine Or.inl ⟨fun h => h.2 (hb.mp rfl), ?_⟩
      exact .look hlook (.bind ⟨_, rfl, rfl⟩)
    | false =>
      refine Or.inr ⟨⟨rfl, fun h => absurd (hb.mpr h) (by simp)⟩, ?_⟩
      have hplain := Patch.Applier.plain_rollback f.file backup
      refine .look hlook (.bind (f := finishRollback f backup) .attempt fun r w₁ hexec => ?_)
      rw [Work.exec_attempt] at hexec
      obtain ⟨rfl, rfl⟩ : (exec (Patch.Applier.rollback f.file backup) w).1 = r ∧
          (exec (Patch.Applier.rollback f.file backup) w).2 = w₁ := by
        simpa using hexec
      exact late_finishRollback hf hstatus backup (hplain.fixes w) (hplain.late w)

/-! ## What a fault tells -/

/-- What an operation looks for in the records before it touches anything. -/
def Operation.Admitted (r : Records) : Operation → Prop
  | .scan .. | .suggestAll _ => True
  | .suggest issueId => (r.issue? issueId).isSome
  | .confirm fixId | .reject fixId => ∃ f, r.fix? fixId = some f ∧ f.status = .pending
  | .apply fixId => ∃ f, r.fix? fixId = some f ∧ f.status = .confirmed
  | .rollback fixId => ∃ f, r.fix? fixId = some f ∧ f.status = .applied ∧ f.backupPath.isSome ∧
      ¬ HasLater r f
  | .retry fixId => ∃ f, r.fix? fixId = some f ∧ f.status = .failed ∧
      (r.issue? f.issueId).isSome

theorem gated_perform (w : Workspace) (o : Operation) :
    Gated w (o.Admitted w.store.records) (s.perform o) := by
  cases o with
  | scan walk platform options switch =>
    exact Or.inr ⟨trivial, (late_scan w walk platform options switch).map _⟩
  | suggest issueId => exact gated_map (gated_suggest s w issueId)
  | suggestAll filter =>
    refine Or.inr ⟨trivial, Late.map (.look (a := w.store.records.listIssues filter) rfl ?_) _⟩
    exact late_suggestEach s _ _ w
  | confirm fixId => exact gated_map (gated_confirm w fixId)
  | reject fixId => exact gated_map (gated_reject w fixId)
  | apply fixId => exact gated_map (gated_apply s w fixId)
  | rollback fixId => exact gated_map (gated_rollback w fixId)
  | retry fixId => exact gated_map (gated_retry s w fixId)

variable {s} in
/-- The fault of an operation that fails is one that is found before anything is touched exactly
where the operation is not admitted, and then every file, copy and record is as it was. An operation
that is admitted may fail later on, when it has written files or lines of the audit trail, but never
with such a fault. -/
theorem isPrecondition_iff {o : Operation} {w w' : Workspace} {e : Fault}
    (h : exec (s.perform o) w = (.error e, w')) :
    (e.isPrecondition = true → w' = w) ∧
      (e.isPrecondition = true ↔ ¬ o.Admitted w.store.records) := by
  rcases gated_perform s w o with ⟨hnot, e', hexec, he'⟩ | ⟨hadmitted, hlate⟩
  · obtain ⟨rfl, rfl⟩ : e = e' ∧ w' = w := by simpa using h.symm.trans hexec
    exact ⟨fun _ => rfl, iff_of_true he' hnot⟩
  · have hfault : e.isPrecondition = false := hlate e (by rw [h])
    simp [hfault, hadmitted]

/-- A confirmed fix. -/
def comparison : Fix :=
  { id := "fix", issueId := "issue", platform := .web, template := "strict-equality"
    title := "Use strict equality", description := "", confidence := 85, file := ⟨"/w/a.js"⟩
    line := 1, replacedCode := "a == b", suggestedCode := "a === b", diff := ""
    status := .confirmed, createdAt := ⟨0, 0⟩ }

/-- The fix is kept, but its file is gone. -/
def stranded : Workspace := { store := { records := { fixes := [comparison] } } }

theorem exec_apply_stranded :
    exec ((confirming 0).applier.apply comparison) stranded =
      (.error (.io comparison.file .notFound), stranded) := by
  have hparts : comparison.file.parts = [.root, .name "w", .name "a.js"] := by decide
  have hresolve : stranded.tree.resolve comparison.file = .error .notFound := by
    rw [FileTree.resolve, hparts, FileTree.follow, FileTree.follow]
    rfl
  have htarget : exec (Patch.target comparison.file) stranded = (.ok comparison.file, stranded) := by
    rw [Patch.target, Work.exec_bind, Work.exec_tree]
    simp only [FileTree.canonical, hresolve]
    rfl
  rw [Patch.Applier.apply, Work.exec_bind, htarget]
  simp only
  rw [Patch.Applier.applyTo, Work.exec_bind, Work.readText, Work.exec_reading]
  simp only [FileTree.readText, FileTree.read, FileTree.lookup, hresolve]
  rfl

/-- That the fix could not be applied is written down. -/
theorem exec_perform_stranded :
    exec ((confirming 0).perform (.apply "fix")) stranded =
      (.error (.io comparison.file .notFound),
        (exec (recordFailed comparison (.io comparison.file .notFound)) stranded).2) := by
  rw [perform, Work.exec_map, apply, Work.exec_bind,
    exec_fix_of_some (show stranded.store.records.fix? "fix" = some comparison from rfl)]
  simp only
  rw [Work.exec_bind, Work.exec_ofExcept, Fix.ensure_of_status rfl]
  simp only
  rw [Work.exec_bind, Work.exec_attempt, exec_apply_stranded]
  rfl

/-- Confirming the fix once more is refused. Applying it fails when its file cannot be read, and
leaves a line in the audit trail. -/
theorem isPrecondition_iff_stranded :
    (∃ e w', exec ((confirming 0).perform (.confirm "fix")) stranded = (.error e, w') ∧
      e.isPrecondition = true ∧ w' = stranded) ∧
    ∃ e w', exec ((confirming 0).perform (.apply "fix")) stranded = (.error e, w') ∧
      w'.store.records.applications.length = 1 ∧ e.isPrecondition = false := by
  constructor
  · have hexec : exec ((confirming 0).perform (.confirm "fix")) stranded =
        (.error (.invalidState "fix" .confirmed "confirm"), stranded) := rfl
    exact ⟨_, _, hexec, rfl, (isPrecondition_iff hexec).1 rfl⟩
  · have hadmitted : (Operation.apply "fix").Admitted stranded.store.records :=
      ⟨comparison, rfl, rfl⟩
    refine ⟨_, _, exec_perform_stranded, rfl, Bool.eq_false_iff.mpr fun he => ?_⟩
    exact (isPrecondition_iff exec_perform_stranded).2.mp he hadmitted

end Service

end Mend
