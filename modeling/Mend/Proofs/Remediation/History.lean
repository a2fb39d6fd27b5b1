import Mend.Proofs.Remediation.Live
import Mathlib.Logic.Relation

/-!
# History is not rewritten

A fix is kept from the moment it is made. What it is about and what it proposes never changes
(`Fix.origin`), its status only takes legal steps, and once no step is left nothing of it changes
any more (`Fix.Later`). Lines of the audit trail stay where they are. All this is one relation
between two workspaces (`Workspace.Grows`), and every operation leads on along it
(`Service.advances_perform`), whether it succeeds or not and whatever becomes of the files of the
store. So it holds between any two moments of a run (`Workspace.Worked.grows`), as long as ids that
are given out are new.
-/

namespace Mend

open Work (exec Plain)

/-! ## The life of a fix -/

/-- A legal step of a status. -/
inductive FixStatus.Step : FixStatus → FixStatus → Prop
  | confirm : Step .pending .confirmed
  | reject : Step .pending .rejected
  | apply : Step .confirmed .applied
  | fail : Step .confirmed .failed
  | rollBack : Step .applied .rolledBack

theorem FixEvent.step (e : FixEvent) : e.needs.Step e.gives := by
  cases e <;> constructor

theorem FixEvent.not_isTerminal_needs (e : FixEvent) : e.needs.isTerminal = false := by
  cases e <;> rfl

namespace Fix

/-- All of a fix but how far it has come and what came of it. -/
def origin (f : Fix) : Fix :=
  { f with
    status := .pending
    confidence := 0
    confirmedAt := none
    appliedAt := none
    rolledBackAt := none
    backupPath := none
    placement := none }

/-- A fix as it is later: of the same origin, further on its way, and unchanged if it was at the end
of its way. -/
structure Later (f g : Fix) : Prop where
  origin : g.origin = f.origin
  steps : Relation.ReflTransGen FixStatus.Step f.status g.status
  ended : f.status.isTerminal = true → g = f

namespace Later

variable {f g h : Fix}

theorem refl (f : Fix) : f.Later f := ⟨rfl, .refl, fun _ => rfl⟩

theorem trans (hfg : f.Later g) (hgh : g.Later h) : f.Later h where
  origin := hgh.origin.trans hfg.origin
  steps := hfg.steps.trans hgh.steps
  ended hend := by
    obtain rfl := hfg.ended hend
    exact hgh.ended hend

theorem id_eq (hfg : f.Later g) : g.id = f.id := by
  have hid := congrArg Fix.id hfg.origin
  exact hid

/-- A fix that has taken a step. -/
theorem of_event {e : FixEvent} (hf : f.status = e.needs) (hg : g.status = e.gives)
    (horigin : g.origin = f.origin) : f.Later g where
  origin := horigin
  steps := by
    rw [hf, hg]
    exact .single e.step
  ended hend := by
    rw [hf, e.not_isTerminal_needs] at hend
    cases hend

end Later

end Fix

/-! ## Lists of fixes -/

theorem forall₂_later_refl (fixes : List Fix) : List.Forall₂ Fix.Later fixes fixes :=
  List.forall₂_same.mpr fun f _ => .refl f

theorem forall₂_later_trans {fixes kept later : List Fix} (h : List.Forall₂ Fix.Later fixes kept)
    (h' : List.Forall₂ Fix.Later kept later) : List.Forall₂ Fix.Later fixes later := by
  induction h generalizing later with
  | nil => exact h'
  | cons hfirst _ ih =>
    obtain ⟨f, rest, hf, hrest, rfl⟩ := List.forall₂_cons_left_iff.mp h'
    exact .cons (hfirst.trans hf) (ih hrest)

theorem forall₂_split {α β : Type} {R : α → β → Prop} {cs : List β} :
    ∀ {as bs : List α}, List.Forall₂ R (as ++ bs) cs →
      ∃ cs₁ cs₂, cs = cs₁ ++ cs₂ ∧ List.Forall₂ R as cs₁ ∧ List.Forall₂ R bs cs₂
  | [], bs, h => ⟨[], cs, rfl, .nil, h⟩
  | a :: as, bs, h => by
    obtain ⟨c, rest, hc, hrest, rfl⟩ := List.forall₂_cons_left_iff.mp h
    obtain ⟨cs₁, cs₂, rfl, h₁, h₂⟩ := forall₂_split hrest
    exact ⟨c :: cs₁, cs₂, rfl, .cons hc h₁, h₂⟩

/-- A later form takes the place of the fix that is found under its id. -/
theorem forall₂_later_put {f f' : Fix} (h : f.Later f') : ∀ {fixes : List Fix},
    fixes.find? (fun g => g.id = f'.id) = some f →
      List.Forall₂ Fix.Later fixes (Records.put Fix.id f' fixes)
  | [], hfind => by cases hfind
  | g :: fixes, hfind => by
    rw [Records.put]
    rw [List.find?_cons] at hfind
    split at hfind
    · next hid =>
      obtain rfl := Option.some.inj hfind
      rw [if_pos (of_decide_eq_true hid)]
      exact .cons h (forall₂_later_refl fixes)
    · next hid =>
      rw [if_neg (of_decide_eq_false hid)]
      exact .cons (.refl g) (forall₂_later_put h hfind)

/-- Of the fix that is found under an id, the later form is found under it. -/
theorem find?_of_forall₂_later {fixes kept : List Fix} (h : List.Forall₂ Fix.Later fixes kept)
    (news : List Fix) {id : String} {f : Fix} (hfind : fixes.find? (fun g => g.id = id) = some f) :
    ∃ g, (kept ++ news).find? (fun g => g.id = id) = some g ∧ f.Later g := by
  induction h with
  | nil => cases hfind
  | @cons a b _ _ hfirst _ ih =>
    have hid := hfirst.id_eq
    rw [List.cons_append, List.find?_cons, hid]
    rw [List.find?_cons] at hfind
    split at hfind
    · obtain rfl := Option.some.inj hfind
      exact ⟨b, rfl, hfirst⟩
    · exact ih hfind

/-! ## Growing workspaces -/

namespace Workspace

/-- The ids that will be given out are new: no fix has one of them. -/
def NewIds (w : Workspace) : Prop :=
  ∀ f ∈ w.store.records.fixes, ∀ k, w.serial ≤ k → f.id ≠ Work.idOf k

/-- Lines were added to the audit trail at most. Each fix is still kept, at its place and in a later
form, and the fixes that came to them have ids that were given out since. -/
structure Grows (w w' : Workspace) : Prop where
  trail : w.store.records.applications <+: w'.store.records.applications
  fixes : ∃ kept news, w'.store.records.fixes = kept ++ news ∧
    List.Forall₂ Fix.Later w.store.records.fixes kept ∧
    ∀ f ∈ news, ∃ k, w.serial ≤ k ∧ k < w'.serial ∧ f.id = Work.idOf k
  serial : w.serial ≤ w'.serial

theorem KeepsFixes.grows {w w' : Workspace} (h : w.KeepsFixes w') : w.Grows w' where
  trail := h.trail
  fixes := ⟨w.store.records.fixes, [], by rw [h.fixes, List.append_nil], forall₂_later_refl _,
    by simp⟩
  serial := h.serial

namespace Grows

variable {w w' w'' : Workspace}

theorem trans (h : w.Grows w') (h' : w'.Grows w'') : w.Grows w'' where
  trail := h.trail.trans h'.trail
  serial := h.serial.trans h'.serial
  fixes := by
    obtain ⟨kept, news, hfixes, hkept, hnews⟩ := h.fixes
    obtain ⟨later, news', hfixes', hlater, hnews'⟩ := h'.fixes
    rw [hfixes] at hlater
    obtain ⟨kept', newer, rfl, hkept', hnewer⟩ := forall₂_split hlater
    refine ⟨kept', newer ++ news', by rw [hfixes', List.append_assoc],
      forall₂_later_trans hkept hkept', fun f hf => ?_⟩
    rcases List.mem_append.mp hf with hf | hf
    · obtain ⟨g, hg, hlater⟩ := exists_of_mem_right hnewer hf
      obtain ⟨k, hle, hlt, hid⟩ := hnews g hg
      exact ⟨k, hle, hlt.trans_le h'.serial, hlater.id_eq.trans hid⟩
    · obtain ⟨k, hle, hlt, hid⟩ := hnews' f hf
      exact ⟨k, h.serial.trans hle, hlt, hid⟩

theorem newIds (h : w.Grows w') (hw : w.NewIds) : w'.NewIds := by
  obtain ⟨kept, news, hfixes, hkept, hnews⟩ := h.fixes
  intro f hf k hk hid
  rw [hfixes] at hf
  rcases List.mem_append.mp hf with hf | hf
  · obtain ⟨g, hg, hlater⟩ := exists_of_mem_right hkept hf
    exact hw g hg k (h.serial.trans hk) (hlater.id_eq.symm.trans hid)
  · obtain ⟨n, -, hlt, hn⟩ := hnews f hf
    have hnk := Work.idOf_inj (hn.symm.trans hid)
    omega

/-- What is found under an id is found under it later on, in a later form. -/
theorem fix? (h : w.Grows w') {id : String} {f : Fix} (hf : w.store.records.fix? id = some f) :
    ∃ g, w'.store.records.fix? id = some g ∧ f.Later g := by
  obtain ⟨kept, news, hfixes, hkept, -⟩ := h.fixes
  rw [Records.fix?, hfixes]
  exact find?_of_forall₂_later hkept news hf

end Grows

end Workspace

/-! ## Operations that lead on -/

/-- Where ids are new, the workspace after the operation has grown out of the one before it. -/
def Work.Advances {α : Type} (w : Workspace) (x : Work α) : Prop :=
  w.NewIds → w.Grows (exec x w).2

open Work (Advances)

namespace Work.Advances

variable {α β : Type} {w : Workspace} {x : Work α} {f : α → Work β}

theorem of_plain (hx : Plain x) : Advances w x := fun _ => (hx.keeps w).grows

theorem of_unchanged (hx : (exec x w).2 = w) : Advances w x := fun _ => by
  rw [hx]
  exact (Workspace.KeepsFixes.refl w).grows

theorem bind (hx : Advances w x) (hf : ∀ a w', exec x w = (.ok a, w') → Advances w' (f a)) :
    Advances w (x >>= f) := by
  intro hw
  have hgrows := hx hw
  rw [exec_bind]
  rcases hexec : exec x w with ⟨r, w'⟩
  rw [hexec] at hgrows
  cases r with
  | error e => exact hgrows
  | ok a => exact hgrows.trans (hf a w' hexec (hgrows.newIds hw))

/-- After an operation that only looks. -/
theorem look {a : α} (hx : exec x w = (.ok a, w)) (hf : Advances w (f a)) :
    Advances w (x >>= f) := by
  rw [Advances, exec_bind, hx]
  exact hf

/-- After an operation that keeps the fixes. -/
theorem after_plain (hx : Plain x)
    (hf : ∀ a w', w'.store.records.fixes = w.store.records.fixes → Advances w' (f a)) :
    Advances w (x >>= f) := by
  refine .bind (.of_plain hx) fun a w' hexec => hf a w' ?_
  have hfixes := hx.fixes w
  rwa [hexec] at hfixes

theorem map (h : Advances w x) (g : α → β) : Advances w (g <$> x) := by
  rw [Advances, exec_map]
  exact h

theorem attempt (h : Advances w x) : Advances w x.attempt := h

/-- After a result is given back. -/
theorem then_pure (h : Advances w x) (b : β) : Advances w (do let _ ← x; pure b) :=
  .bind h fun _ _ _ => .of_unchanged rfl

end Work.Advances

/-! ## Fixes that are kept -/

theorem Store.keeps_persistFixes (w : Workspace) : w.KeepsFixes (exec persistFixes w).2 := by
  rw [persistFixes, Work.exec_bind, exec_current]
  exact (plain_persist _ _).keeps w

theorem Store.serial_saveFix (w : Workspace) (f : Fix) :
    w.serial ≤ (exec (saveFix f) w).2.serial := by
  have hpersist := keeps_persistFixes
    { w with store := { w.store with records := w.store.records.saveFix f } }
  rw [saveFix, Work.exec_bind, exec_current]
  simp only
  rw [Work.exec_bind, exec_setRecords]
  simp only
  exact hpersist.serial

/-- A fix that is found is replaced by a later form of it. -/
theorem Store.advances_updateFix {w w' : Workspace} {id : String} {f f' : Fix}
    (hf : w.store.records.fix? id = some f)
    (h : w'.store.records.fixes = w.store.records.fixes) (hlater : f.Later f') :
    Advances w' (updateFix f') := by
  intro _
  have hid : f'.id = id := hlater.id_eq.trans (Records.fix?_eq_some hf).2
  have hfind : w'.store.records.fix? f'.id = some f := by
    rw [Records.fix?, h, hid]
    exact hf
  have hexec : exec (updateFix f') w' = exec (saveFix f') w' := by
    rw [updateFix, Work.exec_bind, exec_current]
    simp only
    rw [Work.exec_bind, Work.exec_ofExcept, Records.updateFix, hfind]
    rfl
  have hstore := store_saveFix w' f'
  rw [hexec]
  refine ⟨?_, ⟨_, [], ?_, forall₂_later_put hlater hfind, by simp⟩, serial_saveFix w' f'⟩
  · rw [hstore]
    exact List.prefix_rfl
  · rw [hstore, List.append_nil]
    rfl

/-- A fix with an id that was given out just before is kept after the others. -/
theorem Store.grows_saveFix {w w' : Workspace} {f : Fix} (hw : w.NewIds) (h : w.KeepsFixes w')
    (hserial : w.serial < w'.serial) (hid : f.id = Work.idOf w.serial) :
    w.Grows (exec (saveFix f) w').2 := by
  have hstore := store_saveFix w' f
  have hnew : f.id ∉ w'.store.records.fixes.map Fix.id := by
    rw [h.fixes]
    intro hmem
    obtain ⟨g, hg, hgid⟩ := List.mem_map.mp hmem
    exact hw g hg w.serial le_rfl (hgid.trans hid)
  have hle := serial_saveFix w' f
  refine ⟨?_, ⟨w.store.records.fixes, [f], ?_, forall₂_later_refl _, ?_⟩, h.serial.trans hle⟩
  · rw [hstore]
    exact h.trail
  · rw [hstore, ← h.fixes]
    exact Records.put_of_not_mem hnew
  · intro g hg
    rw [List.mem_singleton] at hg
    subst hg
    exact ⟨w.serial, le_rfl, hserial.trans_le hle, hid⟩

namespace Service

variable {α : Type} {w : Workspace}

/-- What is done with a fix is done with the one that is found under the id, or not at all. -/
theorem advances_fix {g : Fix → Work α} (id : String)
    (h : ∀ f, w.store.records.fix? id = some f → Advances w (g f)) :
    Advances w (fix id >>= g) := by
  cases hfix : w.store.records.fix? id with
  | none =>
    refine .of_unchanged ?_
    rw [Work.exec_bind, exec_fix_of_none hfix]
  | some f => exact .look (exec_fix_of_some hfix) (h f hfix)

theorem advances_issue {g : Issue → Work α} (id : String) (h : ∀ i, Advances w (g i)) :
    Advances w (issue id >>= g) := by
  cases hissue : w.store.records.issue? id with
  | none =>
    refine .of_unchanged ?_
    rw [Work.exec_bind, exec_issue_of_none hissue]
  | some i => exact .look (exec_issue_of_some hissue) (h i)

/-- A step of a fix is taken, or refused. -/
theorem advances_ensure {f : Fix} {e : FixEvent} {g : FixStatus → Work α}
    (h : f.status = e.needs → ∀ status, Advances w (g status)) :
    Advances w (Work.ofExcept (f.ensure e) >>= g) := by
  by_cases hstatus : f.status = e.needs
  · refine .look (a := e.gives) ?_ (h hstatus _)
    rw [Work.exec_ofExcept, Fix.ensure_of_status hstatus]
  · obtain ⟨fault, hfault⟩ := Fix.ensure_of_ne hstatus
    refine .of_unchanged ?_
    rw [Work.exec_bind, Work.exec_ofExcept, hfault]

theorem advances_transition {f : Fix} {e : FixEvent} {g : Fix → Work α}
    (h : f.status = e.needs → Advances w (g { f with status := e.gives })) :
    Advances w (Work.ofExcept (f.transition e) >>= g) := by
  by_cases hstatus : f.status = e.needs
  · refine .look ?_ (h hstatus)
    rw [Work.exec_ofExcept, Fix.transition_of_status hstatus]
  · obtain ⟨fault, hfault⟩ := exec_transition_of_ne hstatus g w
    exact .of_unchanged (by rw [hfault])

/-! ## Scanning -/

theorem advances_uncut (r : Except Text.BadOffset α) : Advances w (uncut r) := by
  cases r <;> exact .of_unchanged rfl

/-- Issues are changed, and nothing else. -/
theorem advances_setIssues (issues : List Issue) :
    Advances w (Store.setRecords { w.store.records with issues }) := fun _ =>
  Workspace.KeepsFixes.grows ⟨rfl, List.prefix_rfl, le_rfl⟩

theorem advances_persistIssues : Advances w Store.persistIssues :=
  .look (Store.exec_current w) (.of_plain (Store.plain_persist _ _))

theorem advances_deleteIssues (ids : List String) : Advances w (Store.deleteIssues ids) := by
  rw [Store.deleteIssues]
  split
  · exact .of_unchanged rfl
  · refine .look (Store.exec_current w) (.bind (advances_setIssues _) fun _ w₁ _ => ?_)
    exact .then_pure advances_persistIssues _

theorem advances_saveIssues (issues : List Issue) : Advances w (Store.saveIssues issues) :=
  .look (Store.exec_current w) (.bind (advances_setIssues _) fun _ _ _ => advances_persistIssues)

theorem advances_scan (walk : Walk) (platform : Platform) (o : ScanOptions) (switch : Switch) :
    Advances w (scan walk platform o switch) := by
  have hsave : ∀ (fresh : List Issue) (outcome : ScanOutcome) (w : Workspace),
      Advances w (do Store.saveIssues fresh; pure outcome) :=
    fun fresh outcome w => .then_pure (advances_saveIssues fresh) outcome
  refine .bind (.bind (.of_plain (.reading _ _)) fun root w₁ _ => ?_) fun s w₂ _ => ?_
  · exact .look (Work.exec_tree w₁) (.of_unchanged rfl)
  refine .look (Work.exec_tree w₂) (.bind (advances_uncut _) fun report w₃ _ => ?_)
  refine .look (a := w₃.store.records.listIssues _) rfl ?_
  refine .bind (.of_plain (plain_matchKnown _ _)) fun ⟨issues, fresh⟩ w₄ _ => ?_
  simp only
  split
  · exact hsave _ _ w₄
  · exact .bind (advances_deleteIssues _) fun resolved w₅ _ => hsave _ _ w₅

/-! ## Suggesting -/

variable (s : Service)

/-- A fix that is made is a new one. -/
theorem advances_synthesize (i : Issue) (retryOf : Option String) :
    Advances w (s.synthesize i retryOf) := by
  refine .bind (.of_plain (.reading _ _)) fun content w₁ _ => ?_
  refine .bind (advances_uncut _) fun c w₂ _ => ?_
  cases c with
  | none => exact .of_unchanged rfl
  | some c =>
    have hsave : ∀ f : Fix, f.id = Work.idOf w₂.serial → w₂.NewIds → w₂.Grows
        (exec (do Store.saveFix f; pure (some f))
          { w₂ with serial := w₂.serial + 1, clock := w₂.tick w₂.clock }).2 := by
      intro f hid hw
      have hkeeps : w₂.KeepsFixes
          { w₂ with serial := w₂.serial + 1, clock := w₂.tick w₂.clock } :=
        ⟨rfl, List.prefix_rfl, Nat.le_succ _⟩
      have hgrows := Store.grows_saveFix hw hkeeps (Nat.lt_succ_self _) hid
      rw [Work.exec_bind]
      split <;> simp_all
    intro hw
    rw [Work.exec_bind, Work.exec_freshId]
    simp only
    rw [Work.exec_bind, Work.exec_now]
    simp only
    split
    · rw [Fix.transition_of_status rfl]
      exact hsave _ rfl hw
    · exact hsave _ rfl hw

theorem advances_suggest (issueId : String) : Advances w (s.suggest issueId) := by
  refine advances_issue issueId fun i => ?_
  refine .look (a := w.store.records.listFixes _) rfl ?_
  split
  · exact .of_unchanged rfl
  · exact advances_synthesize s i none

theorem advances_suggestEach :
    ∀ (ids : List String) (out : Suggestions) {w : Workspace}, Advances w (s.suggestEach ids out)
  | [], _, _ => .of_unchanged rfl
  | id :: ids, out, w => by
    refine .bind (advances_suggest s id).attempt fun r w₁ _ => ?_
    split
    · exact advances_suggestEach ids _
    · exact advances_suggestEach ids _
    · exact .of_unchanged rfl
    · exact .of_unchanged rfl
    · exact advances_suggestEach ids _

theorem advances_retry (fixId : String) : Advances w (s.retry fixId) := by
  refine advances_fix fixId fun failed _ => ?_
  simp only
  split
  · exact .of_unchanged rfl
  · exact advances_issue _ fun i => advances_synthesize s i _

/-! ## Deciding -/

theorem advances_confirm (fixId : String) : Advances w (confirm fixId) := by
  refine advances_fix fixId fun f hf => advances_transition (e := .confirm) fun hstatus => ?_
  refine .after_plain .now fun now w₁ h₁ => .then_pure ?_ _
  exact Store.advances_updateFix hf h₁ (.of_event (e := .confirm) hstatus rfl rfl)

theorem advances_reject (fixId : String) : Advances w (reject fixId) := by
  refine advances_fix fixId fun f hf => advances_transition (e := .reject) fun hstatus => ?_
  refine .then_pure ?_ _
  exact Store.advances_updateFix hf rfl (.of_event (e := .reject) hstatus rfl rfl)

/-! ## Applying and rolling back -/

theorem advances_recordApplied {w' : Workspace} {id : String} {f : Fix}
    (hf : w.store.records.fix? id = some f)
    (h : w'.store.records.fixes = w.store.records.fixes) (outcome : Patch.Outcome) :
    Advances w' (recordApplied f outcome) := by
  refine advances_transition (e := .applySucceeded) fun hstatus => ?_
  refine .after_plain .now fun now w₁ h₁ => ?_
  refine .after_plain (Store.plain_append _) fun _ w₂ h₂ => .then_pure ?_ _
  exact Store.advances_updateFix hf (h₂.trans (h₁.trans h))
    (.of_event (e := .applySucceeded) hstatus rfl rfl)

theorem advances_recordFailed {w' : Workspace} {id : String} {f : Fix}
    (hf : w.store.records.fix? id = some f)
    (h : w'.store.records.fixes = w.store.records.fixes) (fault : Fault) :
    Advances w' (recordFailed f fault) := by
  refine advances_transition (e := .applyFailed) fun hstatus => ?_
  refine .after_plain .now fun now w₁ h₁ => ?_
  refine .after_plain (Store.plain_append _) fun _ w₂ h₂ => ?_
  exact Store.advances_updateFix hf (h₂.trans (h₁.trans h))
    (.of_event (e := .applyFailed) hstatus rfl rfl)

theorem advances_apply (fixId : String) : Advances w (s.apply fixId) := by
  refine advances_fix fixId fun f hf => advances_ensure (e := .applySucceeded) fun _ _ => ?_
  have hplain := s.applier.plain_apply f
  refine .bind (Advances.attempt (.of_plain hplain)) fun r w₁ hexec => ?_
  rw [Work.exec_attempt] at hexec
  obtain ⟨-, rfl⟩ := Prod.mk.inj hexec
  split
  · exact advances_recordApplied hf (hplain.fixes w) _
  · exact .bind (advances_recordFailed hf (hplain.fixes w) _) fun _ _ _ => .of_unchanged rfl

theorem advances_finishRollback {w' : Workspace} {id : String} {f : Fix}
    (hf : w.store.records.fix? id = some f)
    (h : w'.store.records.fixes = w.store.records.fixes) (backup : Path)
    (result : Except Fault Unit) : Advances w' (finishRollback f backup result) := by
  refine .after_plain .now fun now w₁ h₁ => ?_
  refine .after_plain (Store.plain_append _) fun _ w₂ h₂ => ?_
  cases result with
  | error e => exact .of_unchanged rfl
  | ok =>
    refine .look (Work.exec_ofExcept _ _) (advances_transition (e := .rollBack) fun hstatus => ?_)
    refine .then_pure (Store.advances_updateFix hf (h₂.trans (h₁.trans h)) ?_) _
    exact .of_event (e := .rollBack) hstatus rfl rfl

theorem advances_rollback (fixId : String) : Advances w (rollback fixId) := by
  refine advances_fix fixId fun f hf => advances_ensure (e := .rollBack) fun _ _ => ?_
  cases hbackup : f.backupPath with
  | none => exact .of_unchanged rfl
  | some backup =>
    obtain ⟨b, hlook, -⟩ := exec_hasLaterFix_iff w f
    refine .look hlook ?_
    cases b with
    | true => exact .of_unchanged rfl
    | false =>
      have hplain := Patch.Applier.plain_rollback f.file backup
      refine .bind (f := finishRollback f backup) (Advances.attempt (.of_plain hplain))
        fun r w₁ hexec => ?_
      rw [Work.exec_attempt] at hexec
      obtain ⟨-, rfl⟩ := Prod.mk.inj hexec
      exact advances_finishRollback hf (hplain.fixes w) backup _

/-! ## Runs -/

/-- Every operation leads on. -/
theorem advances_perform (o : Operation) : Advances w (s.perform o) := by
  cases o with
  | scan walk platform options switch =>
    exact .map (advances_scan walk platform options switch) _
  | suggest issueId => exact .map (advances_suggest s issueId) _
  | suggestAll filter =>
    exact .map (.look (a := w.store.records.listIssues filter) rfl (advances_suggestEach s _ _)) _
  | confirm fixId => exact .map (advances_confirm fixId) _
  | reject fixId => exact .map (advances_reject fixId) _
  | apply fixId => exact .map (advances_apply s fixId) _
  | rollback fixId => exact .map (advances_rollback fixId) _
  | retry fixId => exact .map (advances_retry s fixId) _

end Service

/-- Workspaces that operations lead to, one after the other, of services with any settings, and
whether they succeed or not. Between two operations others may do anything but change the records or
take ids back. -/
inductive Workspace.Worked (w₀ : Workspace) : Workspace → Prop
  | start : Worked w₀ w₀
  | perform {w} (h : Worked w₀ w) (s : Service) (o : Service.Operation) :
      Worked w₀ (exec (s.perform o) w).2
  | meddle {w w'} (h : Worked w₀ w) (hrecords : w'.store.records = w.store.records)
      (hserial : w.serial ≤ w'.serial) : Worked w₀ w'

namespace Workspace.Worked

variable {w₀ w w' : Workspace}

theorem grows (h : w₀.Worked w) (hw₀ : w₀.NewIds) : w₀.Grows w := by
  induction h with
  | start => exact (KeepsFixes.refl w₀).grows
  | perform _ s o ih => exact ih.trans (Service.advances_perform s o (ih.newIds hw₀))
  | meddle _ hrecords hserial ih =>
    exact ih.trans (KeepsFixes.grows ⟨by rw [hrecords], by rw [hrecords], hserial⟩)

/-- History is not rewritten. Between any two moments of a run, lines are added to the audit trail
at most, and every fix stays where it is in the list of fixes, in a later form, which is also what
is found under its id. A fix that was rejected, has failed or was rolled back is kept as it was.
Only the ids that are given out must be new. -/
theorem history_kept (h : w₀.Worked w) (hw₀ : w₀.NewIds) (h' : w.Worked w') :
    w.store.records.applications <+: w'.store.records.applications ∧
    (∃ kept news, w'.store.records.fixes = kept ++ news ∧
      List.Forall₂ Fix.Later w.store.records.fixes kept) ∧
    ∀ id f, w.store.records.fix? id = some f →
      ∃ g, w'.store.records.fix? id = some g ∧ f.Later g := by
  have hgrows := h'.grows ((h.grows hw₀).newIds hw₀)
  obtain ⟨kept, news, hfixes, hkept, -⟩ := hgrows.fixes
  exact ⟨hgrows.trail, ⟨kept, news, hfixes, hkept⟩, fun id f hf => hgrows.fix? hf⟩

/-- A fix whose file is gone fails, with a line in the audit trail. It is kept as it is when it is
retried. -/
theorem history_kept_stranded : ∃ w w' f, Service.stranded.Worked w ∧
    w' = (exec ((Service.confirming 0).perform (.retry "fix")) w).2 ∧
    w.store.records.applications.length = 1 ∧
    w.store.records.applications <+: w'.store.records.applications ∧
    f.status = .failed ∧ w.store.records.fix? "fix" = some f ∧
    w'.store.records.fix? "fix" = some f := by
  have hnew : Service.stranded.NewIds := by
    intro f hf k _ hid
    rw [List.mem_singleton.mp hf] at hid
    have htake := congrArg (fun s => (s.toList.take 8).length) hid
    have hlength := Work.length_idDigits k
    simp only [Work.take_idOf, List.length_take] at htake
    have hshort : Service.comparison.id.toList.length = 3 := rfl
    omega
  have h := Worked.start.perform (w := Service.stranded) (Service.confirming 0) (.apply "fix")
  rw [Service.exec_perform_stranded] at h
  obtain ⟨htrail, -, hfound⟩ := history_kept h hnew
    (Worked.start.perform (Service.confirming 0) (.retry "fix"))
  obtain ⟨g, hg, hlater⟩ := hfound "fix" (Service.failed Service.comparison) rfl
  obtain rfl := hlater.ended rfl
  exact ⟨_, _, _, h, rfl, rfl, htrail, rfl, rfl, hg⟩

end Workspace.Worked

end Mend
