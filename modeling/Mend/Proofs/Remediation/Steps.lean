import Mend.Proofs.Remediation.Calm

/-!
# Scanning, suggesting and deciding

Scanning and suggesting are calm: a suggested fix has a new id, and is confirmed at once only if the
policy says so. Confirming and rejecting need a pending fix (`exec_confirm`, `exec_reject`) and
replace nothing but that fix.
-/

namespace Mend

open Work (exec)

/-! ## Steps of a fix -/

/-- The status that a fix needs for an event. -/
def FixEvent.needs : FixEvent → FixStatus
  | confirm | reject => .pending
  | applySucceeded | applyFailed => .confirmed
  | rollBack => .applied

/-- The status that a fix has after an event. -/
def FixEvent.gives : FixEvent → FixStatus
  | confirm => .confirmed
  | reject => .rejected
  | applySucceeded => .applied
  | applyFailed => .failed
  | rollBack => .rolledBack

theorem FixStatus.next?_eq (s : FixStatus) (e : FixEvent) :
    s.next? e = if s = e.needs then some e.gives else none := by
  cases s <;> cases e <;> rfl

namespace Fix

variable {f : Fix} {e : FixEvent}

theorem ensure_of_status (h : f.status = e.needs) : f.ensure e = .ok e.gives := by
  rw [ensure, FixStatus.next?_eq, if_pos h]

theorem transition_of_status (h : f.status = e.needs) :
    f.transition e = .ok { f with status := e.gives } := by
  rw [transition, ensure_of_status h]
  rfl

theorem ensure_of_ne (h : f.status ≠ e.needs) : ∃ fault, f.ensure e = .error fault := by
  rw [ensure, FixStatus.next?_eq, if_neg h]
  exact ⟨_, rfl⟩

theorem transition_of_ne (h : f.status ≠ e.needs) : ∃ fault, f.transition e = .error fault := by
  obtain ⟨fault, hfault⟩ := ensure_of_ne h
  exact ⟨fault, by rw [transition, hfault]; rfl⟩

end Fix

namespace Service

variable {p : Policy} {w : Workspace}

/-! ## Scanning -/

/-- A finding is kept as an issue of the same file. -/
theorem calmly_keep (hw : w.Sound) {f : Finding} (hf : w.tree.Source f.file) :
    Calmly p w (keep f) fun i w' => w'.tree.Source i.file :=
  Calmly.freshId_now hw fun hcalm => .pure hcalm.sound hf

theorem calmly_matchKnown (known : List Issue) :
    ∀ (findings : List Finding) {w : Workspace}, w.Sound →
      (∀ f ∈ findings, w.tree.Source f.file) →
        Calmly p w (matchKnown known findings) fun r w' => ∀ i ∈ r.2, w'.tree.Source i.file
  | [], w, hw, _ => .pure hw (by simp)
  | f :: findings, w, hw, hsource => by
    have hrest : ∀ {w' : Workspace}, w.Calm p w' → ∀ g ∈ findings, w'.tree.Source g.file :=
      fun hcalm g hg => (hsource g (List.mem_cons_of_mem _ hg)).becomes hcalm.moves.tree
    rw [matchKnown]
    split
    · next i hi =>
      refine .bind (calmly_matchKnown known findings hw (hrest (.refl hw))) ?_
      rintro ⟨issues, fresh⟩ w' hcalm hfresh
      exact .pure hcalm.sound hfresh
    · next hi =>
      refine .bind (calmly_keep hw (hsource f List.mem_cons_self)) fun i w' hcalm hi => ?_
      refine .bind (calmly_matchKnown known findings hcalm.sound (hrest hcalm)) ?_
      rintro ⟨issues, fresh⟩ w'' hcalm' hfresh
      refine .pure hcalm'.sound ?_
      intro j hj
      rcases List.mem_cons.mp hj with rfl | hj
      · exact hi.becomes hcalm'.moves.tree
      · exact hfresh j hj

theorem calmly_deleteIssues (hw : w.Sound) (ids : List String) :
    Calmly p w (Store.deleteIssues ids) fun _ _ => True := by
  rw [Store.deleteIssues]
  split
  · exact .pure hw trivial
  · refine Calmly.look (a := w.store.records) rfl ?_
    have hset : Calmly p w (Store.setRecords (w.store.records.deleteIssues ids)) fun _ _ => True :=
      ⟨.of_moves hw (Store.moves_setRecords _ _ w) (fun i hi => Or.inl (List.mem_filter.mp hi).1) rfl
        rfl,
        fun _ _ => trivial⟩
    refine .bind hset fun _ w₁ h₁ _ => ?_
    refine .bind (.of_stores (Store.stores_persistIssues h₁.sound.toReady)
      fun w' hmoves hrecords => .of_moves_eq h₁.sound hmoves hrecords) fun _ w₂ h₂ _ => ?_
    exact .pure h₂.sound trivial

theorem calmly_saveIssues (hw : w.Sound) {issues : List Issue}
    (h : ∀ i ∈ issues, w.tree.Source i.file) :
    Calmly p w (Store.saveIssues issues) fun _ _ => True := by
  refine (Calmly.of_stores (Store.stores_saveIssues hw.toReady issues) ?_).mono
    fun _ _ _ _ => trivial
  intro w' hmoves hrecords
  refine .of_moves hw hmoves (fun i hi => ?_) (by rw [hrecords]; rfl) (by rw [hrecords]; rfl)
  rw [hrecords] at hi
  rcases Records.mem_saveIssues hi with hi | hi
  · exact Or.inr ((h i hi).becomes hmoves.tree)
  · exact Or.inl hi

/-- The files of a project are those of the walk. -/
theorem calmly_ofWalk (hw : w.Sound) (walk : Walk) (platform : Platform) :
    Calmly p w (Structure.ofWalk walk platform) fun s w' =>
      ∀ p ∈ s.files.map (·.1), ∃ place, w'.tree.FileAt p place := by
  refine .bind (.reading hw _ _) fun root w' hcalm _ => ?_
  refine Calmly.look (a := w'.tree) rfl (.pure hcalm.sound fun p hp => ?_)
  simp only [List.map_map, List.mem_map, Function.comp_apply] at hp
  obtain ⟨q, hq, rfl⟩ := hp
  exact walk.fileAt_of_mem_files hcalm.sound.grounded hq

theorem calmly_scan (hw : w.Sound) (walk : Walk) (platform : Platform) (o : ScanOptions)
    (switch : Switch) : Calmly p w (scan walk platform o switch) fun _ _ => True := by
  refine .bind (calmly_ofWalk hw walk platform) fun s w₁ h₁ hfiles => ?_
  refine Calmly.look (a := w₁.tree) rfl ?_
  refine .bind (P := fun report w' => ∀ f ∈ report.findings, w'.tree.Source f.file)
    (.uncut h₁.sound fun report hreport f hf => ?_) fun report w₂ h₂ hsource => ?_
  · obtain ⟨hfile, hlanguage⟩ := Scan.file_of_mem_project hreport hf
    exact ⟨hfiles _ hfile, hlanguage⟩
  refine .bind (calmly_listIssues h₂.sound _) fun known w₃ h₃ _ => ?_
  refine .bind (calmly_matchKnown known report.findings h₃.sound fun f hf =>
    (hsource f hf).becomes h₃.moves.tree) ?_
  rintro ⟨issues, fresh⟩ w₄ h₄ hfresh
  have hsave : ∀ resolved w₅, w₄.Calm p w₅ → Calmly p w₅ (do
      Store.saveIssues fresh
      pure (⟨report, issues, fresh.length, resolved⟩ : ScanOutcome)) fun _ _ => True := by
    intro resolved w₅ h₅
    refine .bind (calmly_saveIssues h₅.sound fun i hi => (hfresh i hi).becomes h₅.moves.tree)
      fun _ w₆ h₆ _ => ?_
    exact .pure h₆.sound trivial
  simp only
  split
  · exact hsave 0 w₄ (.refl h₄.sound)
  · exact .bind (calmly_deleteIssues h₄.sound _) fun resolved w₅ h₅ _ => hsave resolved w₅ h₅

/-! ## Suggesting -/

variable (s : Service)

/-- A fix that is made for an issue is new. -/
theorem calmly_synthesize (hw : w.Sound) {i : Issue} (hi : w.tree.Source i.file)
    (retryOf : Option String) : Calmly s.policy w (s.synthesize i retryOf) fun _ _ => True := by
  refine .bind (.reading hw _ _) fun content w₁ h₁ _ => ?_
  refine .bind (P := fun _ _ => True) (.uncut h₁.sound fun _ _ => trivial) fun c w₂ h₂ _ => ?_
  cases c with
  | none => exact .pure h₂.sound trivial
  | some c =>
    have hsource : w₂.tree.Source i.file := hi.becomes (h₁.trans h₂).moves.tree
    refine .freshId_now h₂.sound fun h₃ => ?_
    have hsave : ∀ f : Fix, f.id = Work.idOf w₂.serial → f.file = i.file → f.Suggested s.policy →
        Calmly s.policy { w₂ with serial := w₂.serial + 1, clock := w₂.tick w₂.clock } (do
          Store.saveFix f
          pure (some f)) fun _ _ => True := by
      intro f hid hfile hf
      refine .bind (calmly_saveFix h₃.sound hid (Nat.lt_succ_self _) ?_ ?_ hf)
        fun _ w₄ h₄ _ => .pure h₄.sound trivial
      · intro hmem
        obtain ⟨g, hg, hgid⟩ := List.mem_map.mp hmem
        obtain ⟨k, hk, hgk⟩ := h₂.sound.fix_id g hg
        have := Work.idOf_inj (hgk.symm.trans (hgid.trans hid))
        omega
      · rw [hfile]
        exact hsource
    simp only
    split
    · next hconfirms =>
      rw [Fix.transition_of_status rfl]
      refine .look (Work.exec_ofExcept _ _) ?_
      exact hsave _ rfl rfl ⟨(if_pos hconfirms).symm, fun _ => rfl⟩
    · next hconfirms => exact hsave _ rfl rfl ⟨(if_neg hconfirms).symm, fun h => by cases h⟩

theorem calmly_suggest (hw : w.Sound) (issueId : String) :
    Calmly s.policy w (s.suggest issueId) fun _ _ => True := by
  refine .bind (calmly_issue hw issueId) fun i w₁ h₁ hi => ?_
  refine .bind (calmly_listFixes h₁.sound _) fun fixes w₂ h₂ _ => ?_
  split
  · exact .pure h₂.sound trivial
  · exact calmly_synthesize s h₂.sound (hi.becomes h₂.moves.tree) none

theorem calmly_suggestEach :
    ∀ (ids : List String) (out : Suggestions) {w : Workspace}, w.Sound →
      Calmly s.policy w (s.suggestEach ids out) fun _ _ => True
  | [], out, w, hw => .pure hw trivial
  | id :: ids, out, w, hw => by
    refine .bind (calmly_suggest s hw id).attempt fun r w₁ h₁ _ => ?_
    split
    · exact calmly_suggestEach ids _ h₁.sound
    · exact calmly_suggestEach ids _ h₁.sound
    · exact .throw h₁.sound _
    · exact .throw h₁.sound _
    · exact calmly_suggestEach ids _ h₁.sound

theorem calmly_suggestAll (hw : w.Sound) (filter : IssueFilter) :
    Calmly s.policy w (s.suggestAll filter) fun _ _ => True :=
  .bind (calmly_listIssues hw filter) fun _ _ h₁ _ => calmly_suggestEach s _ _ h₁.sound

theorem calmly_retry (hw : w.Sound) (fixId : String) :
    Calmly s.policy w (s.retry fixId) fun _ _ => True := by
  refine .bind (calmly_fix hw fixId) fun failed w₁ h₁ _ => ?_
  simp only
  split
  · exact .throw h₁.sound _
  · refine .bind (calmly_issue h₁.sound _) fun i w₂ h₂ hi => ?_
    exact calmly_synthesize s h₂.sound hi _

/-! ## Deciding -/

theorem exec_fix_of_none {id : String} (h : w.store.records.fix? id = none) :
    exec (fix id) w = (.error (.fixNotFound id), w) := by
  have hlook : exec (Store.fix? id) w = (.ok (w.store.records.fix? id), w) := rfl
  rw [fix, Work.exec_bind, hlook, h]
  rfl

theorem exec_fix_of_some {id : String} {f : Fix} (h : w.store.records.fix? id = some f) :
    exec (fix id) w = (.ok f, w) := by
  have hlook : exec (Store.fix? id) w = (.ok (w.store.records.fix? id), w) := rfl
  rw [fix, Work.exec_bind, hlook, h]
  rfl

/-- An operation on a fix is refused where there is no such fix, or its status is not the one that
the operation needs. -/
theorem exec_fix_bind {α : Type} {w : Workspace} {e : FixEvent} {g : Fix → Work α} (id : String)
    (hg : ∀ f : Fix, f.status ≠ e.needs → ∃ fault, exec (g f) w = (.error fault, w)) :
    (∃ fault, exec (fix id >>= g) w = (.error fault, w)) ∨
      ∃ f ∈ w.store.records.fixes, f.id = id ∧ f.status = e.needs ∧
        exec (fix id >>= g) w = exec (g f) w := by
  rw [Work.exec_bind]
  cases hfix : w.store.records.fix? id with
  | none =>
    rw [exec_fix_of_none hfix]
    exact Or.inl ⟨_, rfl⟩
  | some f =>
    obtain ⟨hf, hid⟩ := Records.fix?_eq_some hfix
    rw [exec_fix_of_some hfix]
    by_cases hstatus : f.status = e.needs
    · exact Or.inr ⟨f, hf, hid, hstatus, rfl⟩
    · exact Or.inl (hg f hstatus)

theorem exec_transition_of_ne {α : Type} {f : Fix} {e : FixEvent} (h : f.status ≠ e.needs)
    (g : Fix → Work α) (w : Workspace) :
    ∃ fault, exec (Work.ofExcept (f.transition e) >>= g) w = (.error fault, w) := by
  obtain ⟨fault, hfault⟩ := Fix.transition_of_ne h
  rw [Work.exec_bind, Work.exec_ofExcept, hfault]
  exact ⟨fault, rfl⟩

/-- The fix as it is kept once it is confirmed. -/
def confirmed (f : Fix) (now : Time) : Fix :=
  { f with status := .confirmed, confirmedAt := some now }

/-- The fix as it is kept once it is rejected. -/
def rejected (f : Fix) : Fix := { f with status := .rejected }

/-- Confirming is refused, or confirms a pending fix. -/
theorem exec_confirm (hw : w.Sound) (id : String) :
    (∃ fault, exec (confirm id) w = (.error fault, w)) ∨
      ∃ f ∈ w.store.records.fixes, f.id = id ∧ f.status = .pending ∧ ∃ now w',
        exec (confirm id) w = (.ok (confirmed f now), w') ∧ w.Turns (Store.FileOf w)
          (Records.put Fix.id (confirmed f now) w.store.records.fixes) [] w' := by
  refine (exec_fix_bind (e := .confirm) id fun f hf => exec_transition_of_ne hf _ w).imp_right ?_
  rintro ⟨f, hf, hid, hstatus, hexec⟩
  have hstores : Store.Stores w (do
      let now ← Work.now
      Store.updateFix (confirmed f now)
      pure (confirmed f now)) (confirmed f (w.tick w.clock))
      (w.store.records.saveFix (confirmed f (w.tick w.clock))) :=
    .bind hw.toReady .now fun w₁ hw₁ h₁ =>
      h₁ ▸ Store.stores_updateFix_pure (f := f) hw₁ (h₁.symm ▸ hf) _ rfl
  obtain ⟨w', hdone, hmoves, hrecords⟩ := hstores
  refine ⟨f, hf, hid, hstatus, w.tick w.clock, w', ?_,
    hw.turns_put hmoves hf (confirmed f (w.tick w.clock)) rfl rfl ?_⟩
  · rw [confirm, hexec, Fix.transition_of_status hstatus, Work.exec_bind, Work.exec_ofExcept]
    exact hdone
  · simp [hrecords, Records.saveFix]

/-- Rejecting is refused, or rejects a pending fix. -/
theorem exec_reject (hw : w.Sound) (id : String) :
    (∃ fault, exec (reject id) w = (.error fault, w)) ∨
      ∃ f ∈ w.store.records.fixes, f.id = id ∧ f.status = .pending ∧ ∃ w',
        exec (reject id) w = (.ok (rejected f), w') ∧ w.Turns (Store.FileOf w)
          (Records.put Fix.id (rejected f) w.store.records.fixes) [] w' := by
  refine (exec_fix_bind (e := .reject) id fun f hf => exec_transition_of_ne hf _ w).imp_right ?_
  rintro ⟨f, hf, hid, hstatus, hexec⟩
  obtain ⟨w', hdone, hmoves, hrecords⟩ :=
    Store.stores_updateFix_pure hw.toReady hf (rejected f) rfl
  refine ⟨f, hf, hid, hstatus, w', ?_, hw.turns_put hmoves hf (rejected f) rfl rfl ?_⟩
  · rw [reject, hexec, Fix.transition_of_status hstatus, Work.exec_bind, Work.exec_ofExcept]
    exact hdone
  · simp [hrecords, Records.saveFix]

end Service

end Mend
