import Mend.Proofs.Remediation.Reconcile
import Mend.Proofs.Remediation.Refusal

/-!
# One live fix for an issue

A fix is live until it is rejected, fails or is rolled back (`Fix.Live`). Suggesting makes a fix for
an issue only if none of its fixes is live (`proposes_suggest`), and no other step of a fix brings it
back to life. No two live fixes are therefore ever about one issue, as long as nobody retries a fix
of an issue that has a live fix (`Service.Runs.one_live`): retrying does not look for one, so that a
failed fix that is retried twice has two successors (`Service.not_one_live`).
-/

namespace Mend

open Work (exec)

/-- Something can still happen to the fix. -/
def Fix.Live (f : Fix) : Prop := f.status.isTerminal = false

instance (f : Fix) : Decidable f.Live := inferInstanceAs (Decidable (_ = _))

/-- No live fix is about the issue. -/
def Unaddressed (fixes : List Fix) (issueId : String) : Prop :=
  ∀ f ∈ fixes, f.issueId = issueId → ¬ f.Live

/-- No two live fixes are about one issue. -/
def OneLive (fixes : List Fix) : Prop :=
  ∀ f ∈ fixes, ∀ g ∈ fixes, f.Live → g.Live → f.issueId = g.issueId → f = g

namespace OneLive

variable {fixes : List Fix} {f f' : Fix}

/-- A fix is added for an issue without live fixes. -/
theorem put_unaddressed (h : OneLive fixes) (hf : Unaddressed fixes f.issueId) :
    OneLive (Records.put Fix.id f fixes) := by
  intro g hg g' hg' hlive hlive' hissue
  rcases Records.mem_of_mem_put hg with rfl | hold <;>
    rcases Records.mem_of_mem_put hg' with rfl | hold'
  · rfl
  · exact absurd hlive' (hf g' hold' hissue.symm)
  · exact absurd hlive (hf g hold hissue)
  · exact h g hold g' hold' hlive hlive' hissue

/-- A fix is replaced by one of the same issue, which is live only if the fix was. -/
theorem put_known (h : OneLive fixes) (hnodup : (fixes.map Fix.id).Nodup) (hf : f ∈ fixes)
    (hid : f'.id = f.id) (hissue : f'.issueId = f.issueId) (hlive : f.Live) :
    OneLive (Records.put Fix.id f' fixes) := by
  intro g hg g' hg' hfirst hsecond hsame
  rcases (Records.mem_put hnodup).mp hg with rfl | ⟨hold, hne⟩ <;>
    rcases (Records.mem_put hnodup).mp hg' with rfl | ⟨hold', hne'⟩
  · rfl
  · have hfg : f = g' := h f hf g' hold' hlive hsecond (hissue.symm.trans hsame)
    exact absurd (hfg ▸ hid.symm) hne'
  · have hfg : f = g := h f hf g hold hlive hfirst (hissue.symm.trans hsame.symm)
    exact absurd (hfg ▸ hid.symm) hne
  · exact h g hold g' hold' hfirst hsecond hsame

/-- The issues of the live fixes are all different. -/
theorem nodup (h : OneLive fixes) (hnodup : (fixes.map Fix.id).Nodup) :
    ((fixes.filter Fix.Live).map Fix.issueId).Nodup := by
  refine List.Nodup.map_on ?_ (hnodup.of_map.filter _)
  intro f hf g hg hissue
  obtain ⟨hf, hlive⟩ := List.mem_filter.mp hf
  obtain ⟨hg, hlive'⟩ := List.mem_filter.mp hg
  exact h f hf g hg (of_decide_eq_true hlive) (of_decide_eq_true hlive') hissue

end OneLive

theorem Store.store_saveFix (w : Workspace) (f : Fix) :
    (exec (saveFix f) w).2.store = { w.store with records := w.store.records.saveFix f } := by
  rw [saveFix, Work.exec_bind, exec_current]
  simp only
  rw [Work.exec_bind, exec_setRecords]
  simp only
  rw [persistFixes, Work.exec_bind, exec_current]
  exact store_persist ..

namespace Service

/-! ## Making fixes -/

/-- The operation leaves the fixes as they are, or keeps one fix of an issue that it may. -/
def Proposes {α : Type} (w : Workspace) (x : Work α) (allowed : String → Prop) : Prop :=
  (exec x w).2.store.records.fixes = w.store.records.fixes ∨
    ∃ f, allowed f.issueId ∧
      (exec x w).2.store.records.fixes = Records.put Fix.id f w.store.records.fixes

namespace Proposes

variable {α β : Type} {w : Workspace} {x : Work α} {f : α → Work β} {allowed : String → Prop}

theorem plain (hx : Work.Plain x) : Proposes w x allowed := Or.inl (hx.fixes w)

/-- After an operation that keeps the fixes. -/
theorem bind (hx : (exec x w).2.store.records.fixes = w.store.records.fixes)
    (hf : ∀ a w', exec x w = (.ok a, w') → Proposes w' (f a) allowed) :
    Proposes w (x >>= f) allowed := by
  rcases hexec : exec x w with ⟨r, w'⟩
  rw [hexec] at hx
  rw [Proposes, Work.exec_bind, hexec]
  cases r with
  | error e => exact Or.inl hx
  | ok a =>
    rw [← hx]
    exact hf a w' hexec

/-- After an operation that only looks. -/
theorem look {a : α} (hx : exec x w = (.ok a, w)) (hf : Proposes w (f a) allowed) :
    Proposes w (x >>= f) allowed := by
  rw [Proposes, Work.exec_bind, hx]
  exact hf

theorem mono {allowed' : String → Prop} (h : Proposes w x allowed)
    (himp : ∀ id, allowed id → allowed' id) : Proposes w x allowed' :=
  h.imp_right fun ⟨f, hf, hput⟩ => ⟨f, himp _ hf, hput⟩

theorem map (g : α → β) (h : Proposes w x allowed) : Proposes w (g <$> x) allowed := by
  rw [Proposes, Work.exec_map]
  exact h

/-- Fixes of issues without live fixes keep what is said of live fixes. -/
theorem oneLive (h : Proposes w x (Unaddressed w.store.records.fixes))
    (hlive : OneLive w.store.records.fixes) : OneLive (exec x w).2.store.records.fixes := by
  rcases h with hsame | ⟨f, hf, hput⟩
  · rwa [hsame]
  · rw [hput]
    exact hlive.put_unaddressed hf

end Proposes

variable {s : Service} {w : Workspace}

theorem fixes_uncut {α : Type} (r : Except Text.BadOffset α) (w : Workspace) :
    (exec (uncut r) w).2.store.records.fixes = w.store.records.fixes := by
  cases r <;> rfl

/-- A fix that is made is one of the issue. -/
theorem proposes_synthesize (s : Service) (w : Workspace) (i : Issue) (retryOf : Option String) :
    Proposes w (s.synthesize i retryOf) (· = i.id) := by
  have hsave : ∀ (f : Fix) (w : Workspace), f.issueId = i.id →
      Proposes w (do Store.saveFix f; pure (some f)) (· = i.id) := by
    intro f w hf
    refine Or.inr ⟨f, hf, ?_⟩
    have hstore := Store.store_saveFix w f
    rw [Work.exec_bind]
    rcases hexec : exec (Store.saveFix f) w with ⟨r, w'⟩
    rw [hexec] at hstore
    simp only at hstore
    cases r <;> simp only [Work.exec_pure, hstore, Records.saveFix]
  refine .bind ((Work.Plain.reading _ _).fixes w) fun content w₁ _ => ?_
  refine .bind (fixes_uncut _ w₁) fun c w₂ _ => ?_
  cases c with
  | none => exact .plain (.pure _)
  | some c =>
    refine .bind (Work.Plain.freshId.fixes w₂) fun id w₃ _ => ?_
    refine .bind (Work.Plain.now.fixes w₃) fun now w₄ _ => ?_
    simp only
    split
    · rw [Fix.transition_of_status rfl]
      exact .look (Work.exec_ofExcept _ _) (hsave _ w₄ rfl)
    · exact hsave _ w₄ rfl

theorem exec_issue_of_none {id : String} (h : w.store.records.issue? id = none) :
    exec (issue id) w = (.error (.issueNotFound id), w) := by
  have hlook : exec (Store.issue? id) w = (.ok (w.store.records.issue? id), w) := rfl
  rw [issue, Work.exec_bind, hlook, h]
  rfl

theorem exec_issue_of_some {id : String} {i : Issue} (h : w.store.records.issue? id = some i) :
    exec (issue id) w = (.ok i, w) := by
  have hlook : exec (Store.issue? id) w = (.ok (w.store.records.issue? id), w) := rfl
  rw [issue, Work.exec_bind, hlook, h]
  rfl

/-- What is done with an issue is done with the one that has the id, or not at all. -/
theorem proposes_issue {α : Type} {g : Issue → Work α} {allowed : String → Prop} (id : String)
    (h : ∀ i, i.id = id → Proposes w (g i) allowed) : Proposes w (issue id >>= g) allowed := by
  cases hissue : w.store.records.issue? id with
  | none =>
    refine Or.inl ?_
    rw [Work.exec_bind, exec_issue_of_none hissue]
  | some i =>
    have hid : i.id = id := by simpa using List.find?_some hissue
    exact .look (exec_issue_of_some hissue) (h i hid)

/-- Suggesting makes a fix only for an issue without live fixes. -/
theorem proposes_suggest (s : Service) (w : Workspace) (issueId : String) :
    Proposes w (s.suggest issueId) (Unaddressed w.store.records.fixes) := by
  refine proposes_issue issueId fun i hi => ?_
  refine .look (a := w.store.records.listFixes { issueId := some i.id }) rfl ?_
  split
  · exact .plain (.pure _)
  · next hnone =>
    refine (proposes_synthesize s w i none).mono ?_
    rintro _ rfl f hf hissue hlive
    rw [List.find?_eq_none] at hnone
    refine hnone f ?_ (by rw [hlive]; rfl)
    rw [Records.listFixes, List.mem_mergeSort, List.mem_filter]
    exact ⟨hf, by simp [FixFilter.accepts, hissue]⟩

theorem oneLive_suggestEach : ∀ (ids : List String) (out : Suggestions) {w : Workspace},
    OneLive w.store.records.fixes →
      OneLive (exec (s.suggestEach ids out) w).2.store.records.fixes
  | [], _, _, h => h
  | id :: ids, out, w, h => by
    have hfirst := (proposes_suggest s w id).oneLive h
    rw [suggestEach, Work.exec_bind, Work.exec_attempt]
    simp only
    split
    · exact oneLive_suggestEach ids _ hfirst
    · exact oneLive_suggestEach ids _ hfirst
    · exact hfirst
    · exact hfirst
    · exact oneLive_suggestEach ids _ hfirst

/-- Retrying makes a fix for the issue of the failed one. -/
theorem proposes_retry (s : Service) (w : Workspace) (fixId : String) :
    Proposes w (s.retry fixId) fun id =>
      ∃ f ∈ w.store.records.fixes, f.id = fixId ∧ f.issueId = id := by
  cases hfix : w.store.records.fix? fixId with
  | none =>
    refine Or.inl ?_
    rw [retry, Work.exec_bind, exec_fix_of_none hfix]
  | some failed =>
    obtain ⟨hmem, hid⟩ := Records.fix?_eq_some hfix
    refine .look (exec_fix_of_some hfix) ?_
    simp only
    split
    · exact Or.inl rfl
    · refine proposes_issue failed.issueId fun i hi => ?_
      refine (proposes_synthesize s w i (some failed.id)).mono ?_
      rintro _ rfl
      exact ⟨failed, hmem, hid, hi.symm⟩

/-! ## Runs -/

/-- The operation retries a fix of an issue that has a live fix. -/
def Doubles (fixes : List Fix) (o : Operation) : Prop :=
  ∃ f ∈ fixes, o = .retry f.id ∧ ¬ Unaddressed fixes f.issueId

/-- Deciding, applying and rolling back bring no fix back to life. -/
theorem Does.oneLive {o : Operation} {r : Except Fault Unit} {w' : Workspace}
    (hdoes : s.Does w o r w') (ho : o.suggests = false) (hw : w.Sound)
    (h : OneLive w.store.records.fixes) : OneLive w'.store.records.fixes := by
  have hknown : ∀ {changed lines} {f f' : Fix}, f ∈ w.store.records.fixes →
      w.Turns changed (Records.put Fix.id f' w.store.records.fixes) lines w' → f'.id = f.id →
      f'.issueId = f.issueId → f.status.isTerminal = false → OneLive w'.store.records.fixes := by
    intro changed lines f f' hf hturns hid hissue hlive
    rw [hturns.fixes_eq]
    exact h.put_known hw.nodup hf hid hissue hlive
  cases hdoes with
  | suggests hsuggests =>
    rw [ho] at hsuggests
    cases hsuggests
  | refused => exact h
  | confirms hf hstatus hturns => exact hknown hf hturns rfl rfl (by rw [hstatus]; rfl)
  | rejects hf hstatus hturns => exact hknown hf hturns rfl rfl (by rw [hstatus]; rfl)
  | fails hf hstatus hturns => exact hknown hf hturns rfl rfl (by rw [hstatus]; rfl)
  | applies hf hstatus hlaid => exact hknown hf hlaid.turns rfl rfl (by rw [hstatus]; rfl)
  | sticks _ _ hturns => rwa [hturns.fixes_eq]
  | lifts hf _ _ hlifted => exact hknown hf.1.1 hlifted.turns rfl rfl (by rw [hf.1.2]; rfl)

/-- Where no two live fixes are about one issue, an operation that does not retry a fix of an issue
with a live fix keeps it so. -/
theorem oneLive_perform (hw : w.Sound) (hrep : w.Representable)
    (hdir : ∀ n, .name n ∈ s.applier.backups.parts → n ∉ Store.files) {o : Operation}
    (h : OneLive w.store.records.fixes) (hretry : ¬ Doubles w.store.records.fixes o) :
    OneLive (exec (s.perform o) w).2.store.records.fixes := by
  have hdoes := does_perform (s := s) hw hrep hdir o
  cases o with
  | scan walk platform options switch =>
    rw [perform, Work.exec_map]
    simp only
    rwa [(fixes_scan walk platform options switch w).1]
  | suggest issueId => exact ((proposes_suggest s w issueId).map _).oneLive h
  | suggestAll filter =>
    rw [perform, Work.exec_map]
    exact oneLive_suggestEach (s := s) _ {} h
  | retry fixId =>
    refine (((proposes_retry s w fixId).map _).mono ?_).oneLive h
    rintro _ ⟨f, hf, rfl, rfl⟩
    exact not_not.mp fun hlive => hretry ⟨f, hf, rfl, hlive⟩
  | confirm | reject | apply | rollback => exact hdoes.oneLive rfl hw h

/-- After every run from an empty store in which nobody retries a fix of an issue that has a live
fix, the live fixes are about different issues. -/
theorem Runs.one_live {w₀ : Workspace} {steps : List Step}
    (h : s.Runs Workspace.Meddled w₀ steps w) (hw₀ : s.Fresh w₀)
    (hretry : ∀ step ∈ steps, ¬ Doubles step.before.store.records.fixes step.operation) :
    ((w.store.records.fixes.filter Fix.Live).map Fix.issueId).Nodup := by
  have hlive : OneLive w.store.records.fixes := by
    induction h with
    | start => simp [OneLive, hw₀.empty]
    | perform hruns hrep o ih =>
      have hbefore := ih fun step hstep => hretry step (List.mem_cons_of_mem _ hstep)
      exact oneLive_perform (hruns.sound hw₀ id) hrep hw₀.backups hbefore
        (hretry _ List.mem_cons_self)
    | meddle hruns hothers ih => exact hothers.store.symm ▸ ih hretry
  exact hlive.nodup (h.sound hw₀ id).nodup

/-- Nobody retries a fix of the counter. -/
theorem one_live_counter : ∃ steps,
    (confirming 0).Runs Workspace.Meddled counter steps scannedCounter ∧
    (∀ step ∈ steps, ¬ Doubles step.before.store.records.fixes step.operation) ∧
    ((scannedCounter.store.records.fixes.filter Fix.Live).map Fix.issueId).Nodup := by
  have hmodest : counter.Modest := modest_projectOf (by decide)
  have hscan := (show (confirming 0).Runs Workspace.Meddled counter [] counter from .start).perform
    hmodest.representable (.scan { root := ⟨"/w"⟩ } .web {} false)
  have hscanned := hmodest.moves ((does_perform fresh_counter.sound hmodest.representable
    fresh_counter.backups (.scan { root := ⟨"/w"⟩ } .web {} false)).moves_files rfl)
  have hruns := hscan.perform hscanned.representable (.suggestAll {})
  refine ⟨_, hruns, ?retries, Runs.one_live hruns fresh_counter ?retries⟩
  intro step hstep
  simp only [List.mem_cons, List.not_mem_nil, or_false] at hstep
  rcases hstep with rfl | rfl <;> simp [Doubles, stepOf]

/-! ## A fix that is retried twice -/

/-- A comparison that converts its operands. -/
def looseText : String := "if (a == b) \x7b\x7d\n"

/-- The rules object to the comparison, and a template fits. -/
theorem run_looseText : ∃ f c, Scan.run (ScanOptions.rules {} .web) ⟨"/w/a.ts"⟩ looseText .web =
    .ok [f] ∧ f.file = ⟨"/w/a.ts"⟩ ∧ Candidate.forIssue {} f looseText = .ok (some c) := by
  obtain ⟨f, hrun, hf⟩ := exists_singleton_of_map
    (x := Scan.run (ScanOptions.rules {} .web) ⟨"/w/a.ts"⟩ looseText .web)
    (g := fun f : Finding => (f.file, (Candidate.forIssue {} f looseText).toOption.join.isSome))
    (b := (⟨"/w/a.ts"⟩, true)) (by decide +kernel)
  obtain ⟨hfile, hmade⟩ := Prod.mk.inj hf
  obtain ⟨c, hc⟩ := Option.isSome_iff_exists.mp hmade
  refine ⟨f, c, hrun, hfile, ?_⟩
  cases h : Candidate.forIssue {} f looseText with
  | error e => simp [h, Except.toOption] at hc
  | ok made =>
    rw [h] at hc
    exact congrArg _ (by simpa [Except.toOption] using hc)

/-- The fix makes the change that the candidate proposes. -/
structure Makes (f : Fix) (c : Candidate) : Prop where
  line : f.line = c.line
  replaced : f.replacedCode = c.replacedCode
  suggested : f.suggestedCode = c.suggestedCode

/-- Where the file can be read, a template fits and the policy confirms what it gives, a fix is made
and confirmed. -/
theorem exec_synthesize_memory {i : Issue} {text : String} {c : Candidate}
    (hhome : w.store.home = none) (htext : w.tree.readText i.file = .ok text)
    (hmade : Candidate.forIssue s.synthesis i.toFinding text = .ok (some c))
    (hconfirms : s.policy.confirms c.confidence = true) (retryOf : Option String) :
    ∃ f w', exec (s.synthesize i retryOf) w = (.ok (some f), w') ∧ f.id = Work.idOf w.serial ∧
      f.issueId = i.id ∧ f.file = i.file ∧ f.status = .confirmed ∧ Makes f c ∧
      w'.tree = w.tree ∧ w'.clock = w.tick w.clock ∧
      w'.store = { w.store with records := w.store.records.saveFix f } := by
  rw [synthesize, Work.exec_bind, Work.readText, Work.exec_reading, htext]
  simp only [Except.mapError]
  rw [Work.exec_bind, hmade]
  simp only [uncut, Work.exec_pure]
  rw [Work.exec_bind, Work.exec_freshId]
  simp only
  rw [Work.exec_bind, Work.exec_now]
  simp only
  split
  · rw [Fix.transition_of_status (e := .confirm) rfl, Work.exec_bind, Work.exec_ofExcept]
    simp only [pure_bind]
    rw [Work.exec_bind, Store.exec_saveFix_memory
      (w := { w with serial := w.serial + 1, clock := w.tick w.clock }) hhome]
    exact ⟨_, _, rfl, rfl, rfl, rfl, rfl, ⟨rfl, rfl, rfl⟩, rfl, rfl, rfl⟩
  · next hnot => exact absurd hconfirms hnot

/-- Suggesting for an issue without live fixes makes one. -/
theorem exec_suggest_of_unaddressed {i : Issue} (hi : w.store.records.issue? i.id = some i)
    (hfixes : Unaddressed w.store.records.fixes i.id) :
    exec (s.suggest i.id) w = exec (s.synthesize i none) w := by
  have hlist : exec (Store.listFixes { issueId := some i.id }) w =
      (.ok (w.store.records.listFixes { issueId := some i.id }), w) := rfl
  have hnone : (w.store.records.listFixes { issueId := some i.id }).find?
      (fun f => !f.status.isTerminal) = none := by
    rw [List.find?_eq_none]
    intro f hf
    rw [Records.listFixes, List.mem_mergeSort, List.mem_filter] at hf
    have hissue : f.issueId = i.id := by simpa [FixFilter.accepts] using hf.2
    simpa [Fix.Live] using hfixes f hf.1 hissue
  rw [suggest, Work.exec_bind, exec_issue_of_some hi]
  simp only
  rw [Work.exec_bind, hlist]
  simp only [hnone]

/-- Retrying a failed fix makes a fix for its issue, whatever other fixes there are. -/
theorem exec_retry_of_failed {f : Fix} {i : Issue} (hf : w.store.records.fix? f.id = some f)
    (hstatus : f.status = .failed) (hi : w.store.records.issue? f.issueId = some i) :
    exec (s.retry f.id) w = exec (s.synthesize i (some f.id)) w := by
  rw [retry, Work.exec_bind, exec_fix_of_some hf]
  simp only [hstatus, ne_eq, not_true_eq_false, if_false]
  rw [Work.exec_bind, exec_issue_of_some hi]

/-- A project of one file after some of a run. -/
structure Midway (s : Service) (others : Workspace → Workspace → Prop) (text : String)
    (w : Workspace) : Prop where
  fresh : s.Fresh (projectOf "a.ts" text)
  meddled : ∀ {w w' : Workspace}, others w w' → w.Meddled w'
  runs : ∃ steps, s.Runs others (projectOf "a.ts" text) steps w
  modest : w.Modest
  fileAt : w.tree.FileAt ⟨"/w/a.ts"⟩ ["w", "a.ts"]

namespace Midway

variable {others : Workspace → Workspace → Prop} {text : String}

theorem sound (h : Midway s others text w) : w.Sound := by
  obtain ⟨steps, hruns⟩ := h.runs
  exact hruns.sound h.fresh h.meddled

theorem perform (h : Midway s others text w) {o : Operation} {r : Except Fault Unit}
    {w' : Workspace} (hexec : exec (s.perform o) w = (r, w')) (hmodest : w'.Modest) :
    Midway s others text w' where
  fresh := h.fresh
  meddled := h.meddled
  runs := by
    obtain ⟨steps, hruns⟩ := h.runs
    have hstep := hruns.perform h.modest.representable o
    rw [stepOf, hexec] at hstep
    exact ⟨_, hstep⟩
  modest := hmodest
  fileAt := by
    have hdoes := does_perform h.sound h.modest.representable h.fresh.backups o
    rw [hexec] at hdoes
    exact h.fileAt.becomes hdoes.moves.tree

/-- The project was scanned, and each finding is stored as an issue. -/
theorem exists_scanned (hfresh : s.Fresh (projectOf "a.ts" text))
    (hothers : ∀ {w w' : Workspace}, others w w' → w.Meddled w')
    (hsize : text.toUTF8.size ≤ Data.countLimit) {found : List Finding}
    (hrun : Scan.run (ScanOptions.rules {} .web) ⟨"/w/a.ts"⟩ text .web = .ok found)
    (hfew : (Scan.listed {} found).length ≤ ({} : ScanOptions).maxIssues) :
    ∃ w, Midway s others text w ∧ (projectOf "a.ts" text).Precedes w ∧
      w.tree = (projectOf "a.ts" text).tree ∧ w.store.records.fixes = [] ∧
      (∃ n ≤ (Scan.listed {} found).length, w.clock = (projectOf "a.ts" text).tick^[n] ⟨0, 0⟩) ∧
      ∀ f ∈ Scan.listed {} found, ∃ i, w.store.records.issue? i.id = some i ∧ i.toFinding = f := by
  obtain ⟨out, w, hscan, -, hfindings, htree, -, hclock⟩ :=
    exec_scan_projectOf (w := projectOf "a.ts" text) rfl rfl (by decide) hrun hfew
  have hstart : Midway s others text (projectOf "a.ts" text) :=
    ⟨hfresh, hothers, ⟨[], .start⟩, modest_projectOf hsize, fileAt_projectOf _⟩
  have hperform : exec (s.perform (.scan wholeProject .web {} false)) (projectOf "a.ts" text) =
      (.ok (), w) := by
    rw [Service.perform, Work.exec_map, hscan]
    rfl
  have hmoves := (does_perform hfresh.sound hstart.modest.representable hfresh.backups
    (.scan wholeProject .web {} false)).moves_files rfl
  rw [hperform] at hmoves
  have hfixes := (fixes_scan wholeProject .web {} false (projectOf "a.ts" text)).1
  rw [hscan] at hfixes
  refine ⟨w, hstart.perform hperform (hstart.modest.moves hmoves), hmoves.toPrecedes, htree, hfixes,
    hclock, fun f hf => ?_⟩
  exact exists_issue_of_scan rfl hscan (hfindings ▸ hf)

/-- A fix is made for an issue. -/
theorem makes (h : Midway s others text w) {i : Issue} {content : String} {c : Candidate}
    (hfile : i.file = ⟨"/w/a.ts"⟩) (htext : w.tree.readText ⟨"/w/a.ts"⟩ = .ok content)
    (hmade : Candidate.forIssue s.synthesis i.toFinding content = .ok (some c))
    (hconfirms : s.policy.confirms c.confidence = true) {o : Operation} (ho : o.edits = false)
    {retryOf : Option String} (hexec : exec (s.perform o) w =
      exec ((fun _ => ()) <$> s.synthesize i retryOf) w) :
    ∃ g w', Midway s others text w' ∧ w.Precedes w' ∧ w'.tree = w.tree ∧
      w'.clock = w.tick w.clock ∧
      w'.store.records.issues = w.store.records.issues ∧
      w'.store.records.fixes = w.store.records.fixes ++ [g] ∧
      g.issueId = i.id ∧ g.file = ⟨"/w/a.ts"⟩ ∧ g.status = .confirmed ∧ Makes g c := by
  obtain ⟨g, w', hsynthesize, hid, hissue, hgfile, hstatus, hmakes, htree, hclock, hstore⟩ :=
    exec_synthesize_memory h.modest.home (hfile ▸ htext) hmade hconfirms retryOf
  rw [Work.exec_map, hsynthesize] at hexec
  have hmoves := (does_perform h.sound h.modest.representable h.fresh.backups o).moves_files ho
  rw [hexec] at hmoves
  refine ⟨g, w', h.perform hexec (h.modest.moves hmoves), hmoves.toPrecedes, htree, hclock,
    by rw [hstore]; rfl, ?_, hissue, hgfile.trans hfile, hstatus, hmakes⟩
  rw [hstore]
  refine Records.put_of_not_mem fun hmem => ?_
  obtain ⟨g', hg', hsame⟩ := List.mem_map.mp hmem
  obtain ⟨k, hk, hk'⟩ := h.sound.fix_id g' hg'
  exact absurd (Work.idOf_inj (hk'.symm.trans (hsame.trans hid))) hk.ne

/-- Somebody writes the file. -/
theorem write (h : Midway s Workspace.Meddled text w) (bytes : ByteArray)
    (hsize : bytes.size ≤ Data.countLimit) :
    Midway s Workspace.Meddled text
      { w with tree := w.tree.set ["w", "a.ts"] (.file bytes) } where
  fresh := h.fresh
  meddled := id
  runs := by
    obtain ⟨steps, hruns⟩ := h.runs
    refine ⟨steps, hruns.meddle ⟨?_, rfl, rfl, le_rfl⟩⟩
    exact (h.fileAt.becomes_set h.sound.grounded bytes).mono (fun _ _ => trivial)
      fun _ hmade => hmade.elim
  modest :=
    { home := h.modest.home
      clock := h.modest.clock
      size := by
        intro q b hq
        rw [FileTree.get?_set _ (by simp)] at hq
        split at hq
        · cases hq
          exact hsize
        · exact h.modest.size q b hq }
  fileAt := h.fileAt.becomes (h.fileAt.becomes_set h.sound.grounded bytes)

/-- A confirmed fix is applied to a file that is no text. -/
theorem fails (h : Midway s others text w) {g : Fix} (hg : g ∈ w.store.records.fixes)
    (hstatus : g.status = .confirmed) (hfile : g.file = ⟨"/w/a.ts"⟩) {e : IoError}
    (htext : w.tree.readText ⟨"/w/a.ts"⟩ = .error e) :
    ∃ w', Midway s others text w' ∧ w'.store.records.issues = w.store.records.issues ∧
      w'.store.records.fixes = Records.put Fix.id (failed g) w.store.records.fixes := by
  obtain ⟨w', hfailed, hmoves, hrecords⟩ := stores_recordFailed h.sound.toReady hg hstatus
    (.io ⟨"/w/a.ts"⟩ e)
  have hexec : exec (s.perform (.apply g.id)) w = (.error (.io ⟨"/w/a.ts"⟩ e), w') := by
    have happly : exec (s.applier.apply g) w = (.error (.io ⟨"/w/a.ts"⟩ e), w) := by
      rw [Patch.Applier.apply, Work.exec_bind, Patch.exec_target, hfile,
        Patch.knownAs_of_fileAt h.sound.grounded h.fileAt]
      simp only
      rw [Patch.Applier.applyTo, Work.exec_bind, Work.readText, Work.exec_reading, htext]
      rfl
    rw [Service.perform, Work.exec_map, apply, Work.exec_bind,
      exec_fix_of_some (h.sound.fix?_eq hg)]
    simp only
    rw [Work.exec_bind, Work.exec_ofExcept, Fix.ensure_of_status hstatus]
    simp only
    rw [Work.exec_bind, Work.exec_attempt, happly]
    simp only
    rw [Work.exec_bind, hfailed]
    rfl
  exact ⟨w', h.perform hexec (h.modest.moves hmoves), by rw [hrecords]; rfl, by rw [hrecords]; rfl⟩

end Midway

/-- A fix fails because its file is no text for a while. It is retried twice, and the two fixes that
come of it are both live. -/
theorem not_one_live : ∃ w₀ steps w f g, (confirming 0).Fresh w₀ ∧
    (confirming 0).Runs Workspace.Meddled w₀ steps w ∧ f ∈ w.store.records.fixes ∧
    g ∈ w.store.records.fixes ∧ f.id ≠ g.id ∧ f.Live ∧ g.Live ∧ f.issueId = g.issueId := by
  obtain ⟨f, c, hrun, hffile, hmade⟩ := run_looseText
  have hlisted : Scan.listed {} [f] = [f] := by simp [Scan.listed]
  obtain ⟨w₁, h₁, -, htree₁, hfixes₁, -, hissues⟩ := Midway.exists_scanned
    (s := confirming 0) (fresh_projectOf ..) id (by decide) hrun (by simp [hlisted])
  obtain ⟨i, hi₁, rfl⟩ := hissues f (by simp [hlisted])
  have htext₁ : w₁.tree.readText ⟨"/w/a.ts"⟩ = .ok looseText := htree₁ ▸ readText_projectOf _
  have hconfirms : (confirming 0).policy.confirms c.confidence = true :=
    decide_eq_true (Nat.zero_le c.confidence)
  -- A fix is suggested.
  obtain ⟨g, w₂, h₂, -, -, -, hissues₂, hfixes₂, hissue, hgfile, hstatus, -⟩ :=
    h₁.makes hffile htext₁ hmade hconfirms (o := .suggest i.id) rfl (by
      rw [perform, Work.exec_map, Work.exec_map,
        exec_suggest_of_unaddressed hi₁ (by simp [Unaddressed, hfixes₁])])
  rw [hfixes₁, List.nil_append] at hfixes₂
  -- The file becomes something that is no text, and the fix is applied.
  have h₃ := h₂.write ⟨#[0xff]⟩ (by decide)
  have htorn : (w₂.tree.set ["w", "a.ts"] (.file ⟨#[0xff]⟩)).readText ⟨"/w/a.ts"⟩ =
      .error .notText := by
    have hread := h₂.fileAt.read_set h₂.sound.grounded ⟨#[0xff]⟩
    have htext : String.fromUTF8? ⟨#[0xff]⟩ = none := by decide
    simp only [FileTree.readText, hread, bind, Except.bind, htext]
  obtain ⟨w₄, h₄, hissues₄, hfixes₄⟩ := h₃.fails (g := g) (by simp [hfixes₂]) hstatus hgfile htorn
  replace hfixes₄ : w₄.store.records.fixes = [failed g] := by
    simpa [hfixes₂, Records.put, failed] using hfixes₄
  -- The file becomes what it was.
  have h₅ := h₄.write looseText.toUTF8 (by decide)
  have htext₅ := FileTree.readText_of_read (h₄.fileAt.read_set h₄.sound.grounded looseText.toUTF8)
  have hi₄ : w₄.store.records.issue? i.id = some i := by
    rwa [Records.issue?, hissues₄, hissues₂, ← Records.issue?]
  -- The fix is retried, and retried once more.
  have hretry : ∀ {w : Workspace}, Midway (confirming 0) Workspace.Meddled looseText w →
      failed g ∈ w.store.records.fixes → w.store.records.issue? i.id = some i →
        exec ((confirming 0).perform (.retry g.id)) w =
          exec ((fun _ => ()) <$> (confirming 0).synthesize i (some g.id)) w := by
    intro w h hg hi
    have hmakes := exec_retry_of_failed (s := confirming 0) (f := failed g) (h.sound.fix?_eq hg) rfl
      (hissue.symm ▸ hi)
    rw [perform, Work.exec_map, Work.exec_map]
    rw [show g.id = (failed g).id from rfl, hmakes]
  obtain ⟨g₁, w₆, h₆, -, htree₆, -, hissues₆, hfixes₆, hissue₁, -, hstatus₁, -⟩ :=
    h₅.makes hffile htext₅ hmade hconfirms rfl (hretry h₅ (by simp [hfixes₄]) hi₄)
  have hi₆ : w₆.store.records.issue? i.id = some i := by
    rwa [Records.issue?, hissues₆, ← Records.issue?]
  obtain ⟨g₂, w₇, h₇, -, -, -, -, hfixes₇, hissue₂, -, hstatus₂, -⟩ :=
    h₆.makes hffile (htree₆ ▸ htext₅) hmade hconfirms rfl
      (hretry h₆ (by simp [hfixes₆, hfixes₄]) hi₆)
  obtain ⟨steps, hruns⟩ := h₇.runs
  have hfixes : w₇.store.records.fixes = [failed g, g₁, g₂] := by
    simp [hfixes₇, hfixes₆, hfixes₄]
  have hnodup := h₇.sound.nodup
  simp only [hfixes, List.map_cons, List.nodup_cons, List.mem_cons] at hnodup
  refine ⟨_, steps, w₇, g₁, g₂, fresh_projectOf .., hruns, by simp [hfixes], by simp [hfixes],
    fun hid => hnodup.2.1 (Or.inl hid), ?_, ?_, hissue₁.trans hissue₂.symm⟩
  · rw [Fix.Live, hstatus₁]
    rfl
  · rw [Fix.Live, hstatus₂]
    rfl

end Service

end Mend
