import Mend.Proofs.Remediation.Survey

/-!
# Scans and what is stored

A scan makes a report of the files (`Service.reportOf`) and brings the stored issues in line with it
(`Service.reconcile`). Findings whose fingerprint is stored are taken for the stored issue, and the
others are kept under new ids (`Service.Matched`). A stored issue goes only if a complete scan would
have found it again: its platform was scanned, its file was read, its rule was run and it is not too
mild (`Service.Covers`). Scanning once more changes nothing (`Service.scan_reconciled`).
-/

namespace Mend

open Work (exec)

/-! ## Writing issues -/

namespace Store

theorem store_persist (w : Workspace) (file : String) (items : List Data) :
    (exec (persist file items) w).2.store = w.store := by
  rw [persist, Work.exec_bind, Work.exec_get]
  simp only
  cases w.store.home with
  | none => rfl
  | some home =>
    rcases Work.exec_write (home.join file) (Json.pretty (.list items)).toUTF8 w with
      ⟨t, -, -, hexec⟩ | ⟨refused, cause, hexec, -⟩ <;> simp only [hexec]

theorem store_persistIssues (w : Workspace) : (exec persistIssues w).2.store = w.store := by
  rw [persistIssues, Work.exec_bind, exec_current]
  exact store_persist ..

/-- Issues are forgotten in memory, whether that can be written or not. -/
theorem exec_deleteIssues (w : Workspace) (ids : List String) :
    ∃ r w', exec (deleteIssues ids) w = (r, w') ∧
      w'.store = { w.store with records := w.store.records.deleteIssues ids } ∧
      ∀ n, r = .ok n → n = w.store.records.countIssues ids := by
  rw [deleteIssues]
  split
  · next hempty =>
    obtain rfl : ids = [] := by simpa using hempty
    refine ⟨_, w, rfl, by simp [Records.deleteIssues], ?_⟩
    rintro _ ⟨⟩
    simp [Records.countIssues]
  · rw [Work.exec_bind, exec_current]
    simp only
    rw [Work.exec_bind, exec_setRecords]
    simp only
    rw [Work.exec_bind]
    have hstore := store_persistIssues
      { w with store := { w.store with records := w.store.records.deleteIssues ids } }
    revert hstore
    rcases exec persistIssues _ with ⟨r | _, w'⟩ <;> intro hstore
    · exact ⟨_, w', rfl, hstore, by simp⟩
    · refine ⟨_, w', rfl, hstore, ?_⟩
      rintro _ ⟨⟩
      rfl

/-- Issues are kept in memory, whether that can be written or not. -/
theorem store_saveIssues (w : Workspace) (issues : List Issue) :
    (exec (saveIssues issues) w).2.store =
      { w.store with records := w.store.records.saveIssues issues } := by
  rw [saveIssues, Work.exec_bind, exec_current]
  simp only
  rw [Work.exec_bind, exec_setRecords]
  exact store_persistIssues _

end Store

theorem Records.mem_listIssues {r : Records} {platform : Platform} {i : Issue} :
    i ∈ r.listIssues { platform := some platform } ↔ i ∈ r.issues ∧ i.platform = platform := by
  simp [listIssues, IssueFilter.accepts]

theorem Records.issue?_eq {r : Records} (hdistinct : (r.issues.map Issue.id).Nodup) {i : Issue}
    (hi : i ∈ r.issues) : r.issue? i.id = some i := by
  cases hfind : r.issue? i.id with
  | none =>
    rw [issue?, List.find?_eq_none] at hfind
    simpa using hfind i hi
  | some j =>
    have hid : j.id = i.id := by simpa using List.find?_some hfind
    rw [List.inj_on_of_nodup_map hdistinct (List.mem_of_find?_eq_some hfind) hi hid]

/-- Issues with new ids are added at the end. -/
theorem Records.saveIssues_of_new {r : Records} {issues : List Issue}
    (hnodup : (issues.map Issue.id).Nodup) (hnew : ∀ i ∈ issues, i.id ∉ r.issues.map Issue.id) :
    r.saveIssues issues = { r with issues := r.issues ++ issues } := by
  induction issues generalizing r with
  | nil => simp [saveIssues]
  | cons i issues ih =>
    rw [List.map_cons, List.nodup_cons] at hnodup
    have hput : put Issue.id i r.issues = r.issues ++ [i] :=
      put_of_not_mem (hnew i List.mem_cons_self)
    have hrest := ih (r := { r with issues := r.issues ++ [i] }) hnodup.2 fun j hj => by
      rw [List.map_append, List.mem_append, not_or]
      refine ⟨hnew j (List.mem_cons_of_mem _ hj), fun hid => hnodup.1 ?_⟩
      rw [List.map_singleton, List.mem_singleton] at hid
      exact hid ▸ List.mem_map_of_mem hj
    rw [saveIssues, List.foldl_cons, hput]
    simpa [saveIssues] using hrest

namespace Service

/-! ## Findings and stored issues -/

section

variable {known : List Issue} {f : Finding}

theorem knownIssue?_eq_some {i : Issue} (h : knownIssue? known f = some i) :
    i ∈ known ∧ i.toFinding.fingerprint = f.fingerprint :=
  ⟨List.mem_reverse.mp (List.mem_of_find?_eq_some h), by simpa using List.find?_some h⟩

theorem knownIssue?_eq_none :
    knownIssue? known f = none ↔ ∀ i ∈ known, i.toFinding.fingerprint ≠ f.fingerprint := by
  simp [knownIssue?]

end

/-- The issue that a finding is taken for: the stored one with its fingerprint, or a new one. -/
def TakenFor (known fresh : List Issue) (f : Finding) (i : Issue) : Prop :=
  knownIssue? known f = some i ∨ (knownIssue? known f = none ∧ i.toFinding = f ∧ i ∈ fresh)

/-- What comes of looking for the findings of a report among the stored issues. -/
structure Matched (known : List Issue) (findings : List Finding) (w : Workspace)
    (issues fresh : List Issue) (w' : Workspace) : Prop where
  tree : w'.tree = w.tree
  store : w'.store = w.store
  serial : w.serial ≤ w'.serial
  clock : ∃ n ≤ findings.length, w'.clock = w.tick^[n] w.clock
  taken : List.Forall₂ (TakenFor known fresh) findings issues
  new : ∀ i ∈ fresh, i.toFinding ∈ findings ∧ knownIssue? known i.toFinding = none ∧
    ∃ k, w.serial ≤ k ∧ k < w'.serial ∧ i.id = Work.idOf k
  subset : fresh ⊆ issues
  nodup : (fresh.map Issue.id).Nodup
  unmoved : fresh = [] → w' = w

theorem exec_matchKnown (known : List Issue) (findings : List Finding) (w : Workspace) :
    ∃ issues fresh w', exec (matchKnown known findings) w = (.ok (issues, fresh), w') ∧
      Matched known findings w issues fresh w' := by
  induction findings generalizing w with
  | nil =>
    exact ⟨[], [], w, rfl,
      { tree := rfl, store := rfl, serial := le_rfl, clock := ⟨0, le_rfl, rfl⟩, taken := .nil
        new := by simp, subset := by simp, nodup := by simp, unmoved := fun _ => rfl }⟩
  | cons f findings ih =>
    rw [matchKnown]
    cases hknown : knownIssue? known f with
    | some i =>
      obtain ⟨issues, fresh, w', hexec, h⟩ := ih w
      obtain ⟨n, hn, hclock⟩ := h.clock
      refine ⟨i :: issues, fresh, w', ?_,
        { h with clock := ⟨n, Nat.le_succ_of_le hn, hclock⟩, taken := ?_, new := ?_, subset := ?_ }⟩
      · simp only
        rw [Work.exec_bind, hexec]
        rfl
      · exact .cons (Or.inl hknown) h.taken
      · exact fun j hj => ⟨List.mem_cons_of_mem _ (h.new j hj).1, (h.new j hj).2⟩
      · exact fun j hj => List.mem_cons_of_mem _ (h.subset hj)
    | none =>
      obtain ⟨i, hkeep, hfinding, hid⟩ : ∃ i, exec (keep f) w = (.ok i,
          { w with serial := w.serial + 1, clock := w.tick w.clock }) ∧ i.toFinding = f ∧
          i.id = Work.idOf w.serial := ⟨_, rfl, rfl, rfl⟩
      obtain ⟨issues, fresh, w', hexec, h⟩ :=
        ih { w with serial := w.serial + 1, clock := w.tick w.clock }
      have hserial : w.serial + 1 ≤ w'.serial := h.serial
      obtain ⟨n, hn, hclock⟩ := h.clock
      refine ⟨i :: issues, i :: fresh, w', ?_,
        { tree := h.tree, store := h.store, serial := by omega
          clock := ⟨n + 1, Nat.succ_le_succ hn, hclock⟩, taken := ?_, new := ?_
          subset := List.cons_subset_cons _ h.subset, nodup := ?_, unmoved := by simp }⟩
      · simp only
        rw [Work.exec_bind, hkeep]
        simp only
        rw [Work.exec_bind, hexec]
        rfl
      · refine .cons (Or.inr ⟨hknown, hfinding, List.mem_cons_self⟩) (h.taken.imp fun g j hj => ?_)
        exact hj.imp_right fun h => ⟨h.1, h.2.1, List.mem_cons_of_mem _ h.2.2⟩
      · intro j hj
        rcases List.mem_cons.mp hj with rfl | hj
        · rw [hfinding]
          exact ⟨List.mem_cons_self, hknown, w.serial, le_rfl, hserial, hid⟩
        · obtain ⟨hmem, hnone, k, hk, hk', hj⟩ := h.new j hj
          exact ⟨List.mem_cons_of_mem _ hmem, hnone, k, (Nat.le_succ _).trans hk, hk', hj⟩
      · rw [List.map_cons, List.nodup_cons]
        refine ⟨fun hmem => ?_, h.nodup⟩
        obtain ⟨j, hj, hsame⟩ := List.mem_map.mp hmem
        obtain ⟨-, -, k, hk, -, hk'⟩ := h.new j hj
        have hk'' : k = w.serial := Work.idOf_inj (hk'.symm.trans (hsame.trans hid))
        simp only at hk
        omega

section

variable {known fresh : List Issue} {f : Finding} {i : Issue}

theorem TakenFor.fingerprint (h : TakenFor known fresh f i) :
    i.toFinding.fingerprint = f.fingerprint := by
  rcases h with h | ⟨-, rfl, -⟩
  · exact (knownIssue?_eq_some h).2
  · rfl

theorem exists_of_mem_issues {findings : List Finding} {issues : List Issue}
    (h : List.Forall₂ (TakenFor known fresh) findings issues) (hi : i ∈ issues) :
    ∃ f ∈ findings, TakenFor known fresh f i :=
  exists_of_mem_right h hi

/-- The issues of a report have the fingerprints of its findings. -/
theorem map_fingerprint_issues {findings : List Finding} {issues : List Issue}
    (h : List.Forall₂ (TakenFor known fresh) findings issues) :
    issues.map (·.toFinding.fingerprint) = findings.map (·.fingerprint) := by
  induction h with
  | nil => rfl
  | cons hfirst _ ih => rw [List.map_cons, List.map_cons, hfirst.fingerprint, ih]

end

/-! ## Reports -/

/-- The stored issues that a complete scan would have found again. -/
def staleIds (o : ScanOptions) (report : ScanReport) (known : List Issue) : List String :=
  if report.cancelled || report.truncated then []
  else (known.filter (isStale report o)).map Issue.id

/-- Bring the store in line with a report. -/
def reconcile (platform : Platform) (o : ScanOptions) (report : ScanReport) : Work ScanOutcome := do
  let known ← Store.listIssues { platform := some platform }
  let (issues, fresh) ← matchKnown known report.findings
  let resolved ← Store.deleteIssues (staleIds o report known)
  Store.saveIssues fresh
  pure ⟨report, issues, fresh.length, resolved⟩

section

variable {walk : Walk} {platform : Platform} {o : ScanOptions} {switch : Switch} {w : Workspace}
  {s : Structure} {report : ScanReport}

theorem scan_eq (walk : Walk) (platform : Platform) (o : ScanOptions) (switch : Switch) :
    scan walk platform o switch = (do
      let s ← Structure.ofWalk walk platform
      let report ← uncut (Scan.project (← Work.tree) s o switch)
      reconcile platform o report) := by
  have hdelete : ∀ (report : ScanReport) (known : List Issue) (k : Nat → Work ScanOutcome),
      (if report.cancelled || report.truncated then pure 0 >>= k
        else Store.deleteIssues ((known.filter (isStale report o)).map Issue.id) >>= k) =
        Store.deleteIssues (staleIds o report known) >>= k := by
    intro report known k
    rw [staleIds]
    split <;> rfl
  simp only [scan, reconcile, hdelete]

/-- A scan whose report is known brings the store in line with it. -/
theorem exec_scan_of_report (hs : Surveyed walk platform w.tree s)
    (hreport : Scan.project w.tree s o switch = .ok report) :
    exec (scan walk platform o switch) w = exec (reconcile platform o report) w := by
  obtain ⟨s', hs', hsurveyed⟩ := exec_ofWalk hs.root platform
  have hsame : Scan.project w.tree s' o switch = .ok report := by
    rw [← hreport]
    exact Scan.project_congr (hsurveyed.platform.trans hs.platform.symm)
      (hsurveyed.files.trans hs.files.symm) (fun _ _ => rfl) o switch
  rw [scan_eq, Work.exec_bind, hs']
  simp only
  rw [Work.exec_bind, Work.exec_tree]
  simp only [hsame, uncut]
  rw [Work.exec_bind, Work.exec_pure]

/-- A scan fails and touches nothing, or the store is brought in line with its report. -/
theorem exec_scan (walk : Walk) (platform : Platform) (o : ScanOptions) (switch : Switch)
    (w : Workspace) :
    (∃ fault, exec (scan walk platform o switch) w = (.error fault, w)) ∨
      ∃ s report, Surveyed walk platform w.tree s ∧
        Scan.project w.tree s o switch = .ok report ∧
        exec (scan walk platform o switch) w = exec (reconcile platform o report) w := by
  cases hroot : w.tree.canonical walk.root with
  | error e =>
    refine Or.inl ⟨.io walk.root e, ?_⟩
    rw [scan_eq, Work.exec_bind, Structure.ofWalk, Work.exec_bind, Work.exec_reading, hroot]
    rfl
  | ok root =>
    obtain ⟨s, hs, hsurveyed⟩ := exec_ofWalk hroot platform
    cases hreport : Scan.project w.tree s o switch with
    | error e =>
      refine Or.inl ⟨.badOffset e.offset, ?_⟩
      rw [scan_eq, Work.exec_bind, hs]
      simp only
      rw [Work.exec_bind, Work.exec_tree]
      simp only [hreport]
      rfl
    | ok report =>
      exact Or.inr ⟨s, report, hsurveyed, hreport, exec_scan_of_report hsurveyed hreport⟩

end

/-! ## The store after a scan -/

/-- What is left to do once the findings of a report were looked for among the stored issues. -/
theorem exec_reconcile_eq {platform : Platform} {o : ScanOptions} {report : ScanReport}
    {w w₁ : Workspace} {issues fresh : List Issue}
    (h : exec (matchKnown (w.store.records.listIssues { platform := some platform })
      report.findings) w = (.ok (issues, fresh), w₁)) :
    exec (reconcile platform o report) w = exec (do
      let resolved ← Store.deleteIssues (staleIds o report
        (w.store.records.listIssues { platform := some platform }))
      Store.saveIssues fresh
      pure (⟨report, issues, fresh.length, resolved⟩ : ScanOutcome)) w₁ := by
  have hlist : exec (Store.listIssues { platform := some platform }) w =
      (.ok (w.store.records.listIssues { platform := some platform }), w) := rfl
  rw [reconcile, Work.exec_bind, hlist]
  simp only
  rw [Work.exec_bind, h]

/-- What the store is brought to by a report, in which the findings stand for the issues. -/
theorem exec_reconcile (platform : Platform) (o : ScanOptions) (report : ScanReport)
    (w : Workspace) : ∃ issues fresh w₁ r w',
      exec (reconcile platform o report) w = (r, w') ∧
      Matched (w.store.records.listIssues { platform := some platform }) report.findings w issues
        fresh w₁ ∧
      w'.store.records.fixes = w.store.records.fixes ∧
      w'.store.records.applications = w.store.records.applications ∧
      ∀ out, r = .ok out → out.report = report ∧ out.issues = issues ∧
        w'.store.records = (w.store.records.deleteIssues (staleIds o report
          (w.store.records.listIssues { platform := some platform }))).saveIssues fresh := by
  obtain ⟨issues, fresh, w₁, hmatch, hmatched⟩ := exec_matchKnown
    (w.store.records.listIssues { platform := some platform }) report.findings w
  rw [exec_reconcile_eq hmatch]
  generalize w.store.records.listIssues { platform := some platform } = known at hmatched ⊢
  obtain ⟨r₂, w₂, hdelete, hstore₂, -⟩ := Store.exec_deleteIssues w₁ (staleIds o report known)
  rw [hmatched.store] at hstore₂
  rw [Work.exec_bind, hdelete]
  cases r₂ with
  | error e =>
    exact ⟨issues, fresh, w₁, _, w₂, rfl, hmatched, by rw [hstore₂]; rfl, by rw [hstore₂]; rfl,
      by simp⟩
  | ok resolved =>
    simp only
    have hstore := Store.store_saveIssues w₂ fresh
    rw [Work.exec_bind]
    revert hstore
    rcases exec (Store.saveIssues fresh) w₂ with ⟨r₃, w₃⟩
    intro hstore
    rw [hstore₂] at hstore
    cases r₃ with
    | error e =>
      exact ⟨issues, fresh, w₁, _, w₃, rfl, hmatched, by rw [hstore]; rfl, by rw [hstore]; rfl,
        by simp⟩
    | ok u =>
      refine ⟨issues, fresh, w₁, _, w₃, rfl, hmatched, by rw [hstore]; rfl, by rw [hstore]; rfl, ?_⟩
      rintro _ ⟨⟩
      exact ⟨rfl, rfl, by rw [hstore]⟩

/-- The report of a scan that succeeds, and what its findings were taken for. -/
theorem exec_scan_eq_ok {walk : Walk} {platform : Platform} {o : ScanOptions} {switch : Switch}
    {w w' : Workspace} {out : ScanOutcome}
    (h : exec (scan walk platform o switch) w = (.ok out, w')) : ∃ s fresh w₁,
      Surveyed walk platform w.tree s ∧ Scan.project w.tree s o switch = .ok out.report ∧
      Matched (w.store.records.listIssues { platform := some platform }) out.report.findings w
        out.issues fresh w₁ ∧
      exec (reconcile platform o out.report) w = (.ok out, w') := by
  rcases exec_scan walk platform o switch w with ⟨fault, hfault⟩ | ⟨s, report, hs, hreport, hexec⟩
  · rw [hfault] at h
    cases h
  · obtain ⟨issues, fresh, w₁, r, w'', hexec', hmatched, -, -, hout⟩ :=
      exec_reconcile platform o report w
    obtain ⟨rfl, rfl⟩ : r = .ok out ∧ w'' = w' := by
      simpa using hexec'.symm.trans (hexec.symm.trans h)
    obtain ⟨rfl, rfl, -⟩ := hout out rfl
    exact ⟨s, fresh, w₁, hs, hreport, hmatched, hexec'⟩

/-- Scanning touches neither the fixes nor the audit trail, whether it succeeds or not. -/
theorem fixes_scan (walk : Walk) (platform : Platform) (o : ScanOptions) (switch : Switch)
    (w : Workspace) :
    (exec (scan walk platform o switch) w).2.store.records.fixes = w.store.records.fixes ∧
      (exec (scan walk platform o switch) w).2.store.records.applications =
        w.store.records.applications := by
  rcases exec_scan walk platform o switch w with ⟨fault, hfault⟩ | ⟨s, report, -, -, hexec⟩
  · rw [hfault]
    exact ⟨rfl, rfl⟩
  · obtain ⟨issues, fresh, w₁, r, w', hexec', -, hfixes, htrail, -⟩ :=
      exec_reconcile platform o report w
    rw [hexec, hexec']
    exact ⟨hfixes, htrail⟩

/-- A scan looks for the issue: its platform is scanned, its file is read, its rule is run and it is
not too mild. -/
structure Covers (walk : Walk) (platform : Platform) (o : ScanOptions) (t : FileTree) (i : Issue) :
    Prop where
  platform_eq : i.platform = platform
  read : ∃ p ∈ walk.files t, o.wantsRole (FileRole.ofPath p) = true ∧ p.same i.file = true ∧
    ∃ content, t.readText p = .ok content
  rule : ∃ r ∈ o.rules platform, r.id = i.rule
  severity : ∀ bound, o.minSeverity = some bound → i.severity.atLeast bound = true

/-- An issue of the report has the fingerprint. -/
def ScanOutcome.Reports (out : ScanOutcome) (fingerprint : Finding.Fingerprint) : Prop :=
  ∃ i ∈ out.issues, i.toFinding.fingerprint = fingerprint

/-- The scan has come to all files and left out no finding. -/
def ScanOutcome.Complete (out : ScanOutcome) : Prop :=
  out.report.cancelled = false ∧ out.report.truncated = false

/-- What the stored issues are after a scan. -/
structure Reconciled (walk : Walk) (platform : Platform) (o : ScanOptions) (w : Workspace)
    (out : ScanOutcome) (w' : Workspace) : Prop where
  /-- Whatever is reported is stored. -/
  stored : ∀ i ∈ out.issues, ∃ j ∈ w'.store.records.issues,
    j.platform = platform ∧ j.toFinding.fingerprint = i.toFinding.fingerprint
  /-- After a complete scan, what was looked for is stored only if it is reported. -/
  reported : out.Complete → ∀ i ∈ w'.store.records.issues, Covers walk platform o w.tree i →
    out.Reports i.toFinding.fingerprint
  /-- An issue stays as it is, unless a complete scan has looked for it and did not find it. -/
  kept : ∀ i ∈ w.store.records.issues, i ∈ w'.store.records.issues ↔
    ¬ (out.Complete ∧ Covers walk platform o w.tree i ∧ ¬ out.Reports i.toFinding.fingerprint)
  /-- A scan that was called off, or left findings out, deletes nothing. -/
  spared : ¬ out.Complete → ∀ i ∈ w.store.records.issues, i ∈ w'.store.records.issues
  /-- Nothing else is stored. -/
  added : ∀ i ∈ w'.store.records.issues, i ∈ w.store.records.issues ∨ i ∈ out.issues
  nodup : (w'.store.records.issues.map Issue.id).Nodup

section

variable {walk : Walk} {platform : Platform} {o : ScanOptions} {switch : Switch} {w : Workspace}
  {s : Structure} {report : ScanReport}

/-- What counts as gone after a complete scan. -/
theorem isStale_iff {t : FileTree} (hs : Surveyed walk platform t s)
    (hreport : Scan.project t s o switch = .ok report) (hcomplete : report.cancelled = false)
    {i : Issue} (hi : i.platform = platform) : isStale report o i = true ↔
      Covers walk platform o t i ∧
        ¬ ∃ f ∈ report.findings, f.fingerprint = i.toFinding.fingerprint := by
  obtain ⟨hplatform, hcancelled⟩ := Scan.project_fields hreport
  have hread : (report.scannedFiles.any fun p => p.same i.file) = true ↔
      ∃ p ∈ walk.files t, o.wantsRole (FileRole.ofPath p) = true ∧ p.same i.file = true ∧
        ∃ content, t.readText p = .ok content := by
    rw [List.any_eq_true]
    constructor
    · rintro ⟨p, hp, hsame⟩
      obtain ⟨hreached, hcontent⟩ := (Scan.mem_scannedFiles hreport).mp hp
      obtain ⟨hfile, hrole⟩ :=
        hs.mem_wantedFiles.mp ((switch.sublist_reached _).subset hreached)
      exact ⟨p, hfile, hrole, hsame, hcontent⟩
    · rintro ⟨p, hfile, hrole, hsame, hcontent⟩
      have hwanted := hs.mem_wantedFiles.mpr ⟨hfile, hrole⟩
      rw [← switch.reached_of_not_stops _ (hcancelled.symm.trans hcomplete)] at hwanted
      exact ⟨p, (Scan.mem_scannedFiles hreport).mpr ⟨hwanted, hcontent⟩, hsame⟩
  have hcovers : Covers walk platform o t i ↔
      (report.scannedFiles.any fun p => p.same i.file) = true ∧
        ((o.rules report.platform).any fun r => r.id == i.rule) = true ∧
        o.minSeverity.all i.severity.atLeast = true := by
    rw [hread, hplatform, hs.platform, List.any_eq_true, Option.all_eq_true]
    simp only [beq_iff_eq]
    exact ⟨fun h => ⟨h.read, h.rule, h.severity⟩, fun h => ⟨hi, h.1, h.2.1, h.2.2⟩⟩
  rw [hcovers, isStale]
  simp [and_assoc]

/-- The ids that are deleted are those of the issues that count as gone. -/
theorem mem_staleIds {r : Records} (hdistinct : (r.issues.map Issue.id).Nodup) {i : Issue}
    (hi : i ∈ r.issues) :
    i.id ∈ staleIds o report (r.listIssues { platform := some platform }) ↔
      (report.cancelled = false ∧ report.truncated = false) ∧ i.platform = platform ∧
        isStale report o i = true := by
  by_cases hcomplete : report.cancelled = false ∧ report.truncated = false
  · rw [staleIds, if_neg (by simp [hcomplete]), and_iff_right hcomplete, List.mem_map]
    constructor
    · rintro ⟨j, hj, hid⟩
      obtain ⟨hj, hstale⟩ := List.mem_filter.mp hj
      obtain ⟨hj, hplatform⟩ := Records.mem_listIssues.mp hj
      obtain rfl := List.inj_on_of_nodup_map hdistinct hj hi hid
      exact ⟨hplatform, hstale⟩
    · rintro ⟨hplatform, hstale⟩
      exact ⟨i, List.mem_filter.mpr ⟨Records.mem_listIssues.mpr ⟨hi, hplatform⟩, hstale⟩, rfl⟩
  · have hflag : (report.cancelled || report.truncated) = true := by
      cases hc : report.cancelled <;> cases ht : report.truncated <;> simp_all
    simp [staleIds, hflag, hcomplete]

theorem Matched.reports_iff {known fresh : List Issue} {w₁ : Workspace} {out : ScanOutcome}
    (h : Matched known report.findings w out.issues fresh w₁) {fingerprint : Finding.Fingerprint} :
    out.Reports fingerprint ↔ ∃ f ∈ report.findings, f.fingerprint = fingerprint := by
  have hmap := congrArg (fingerprint ∈ ·) (map_fingerprint_issues h.taken)
  simpa [ScanOutcome.Reports] using hmap

/-- What is deleted is what a complete scan has looked for and did not report. -/
theorem mem_staleIds_iff {known fresh : List Issue} {w₁ : Workspace} {out : ScanOutcome}
    (hdistinct : (w.store.records.issues.map Issue.id).Nodup)
    (hs : Surveyed walk platform w.tree s)
    (hreport : Scan.project w.tree s o switch = .ok out.report)
    (hmatched : Matched known out.report.findings w out.issues fresh w₁) {i : Issue}
    (hi : i ∈ w.store.records.issues) :
    i.id ∈ staleIds o out.report (w.store.records.listIssues { platform := some platform }) ↔
      out.Complete ∧ Covers walk platform o w.tree i ∧
        ¬ out.Reports i.toFinding.fingerprint := by
  rw [mem_staleIds hdistinct hi, hmatched.reports_iff, ScanOutcome.Complete]
  refine and_congr_right fun hcomplete => ?_
  constructor
  · exact fun ⟨hplatform, hstale⟩ => (isStale_iff hs hreport hcomplete.1 hplatform).mp hstale
  · exact fun h => ⟨h.1.platform_eq, (isStale_iff hs hreport hcomplete.1 h.1.platform_eq).mpr h⟩

/-- A new issue has an id that no stored issue has. -/
theorem Matched.id_not_mem {known fresh issues : List Issue} {found : List Finding}
    {w₁ : Workspace} (h : Matched known found w issues fresh w₁)
    (hfresh : ∀ i ∈ w.store.records.issues, ∀ k, w.serial ≤ k → i.id ≠ Work.idOf k) {i : Issue}
    (hi : i ∈ fresh) : i.id ∉ w.store.records.issues.map Issue.id := by
  intro hmem
  obtain ⟨j, hj, hid⟩ := List.mem_map.mp hmem
  obtain ⟨-, -, k, hk, -, hik⟩ := h.new i hi
  exact hfresh j hj k hk (hid.trans hik)

/-- What a report makes of the store. -/
theorem reconciled_of_report (hdistinct : (w.store.records.issues.map Issue.id).Nodup)
    (hfresh : ∀ i ∈ w.store.records.issues, ∀ k, w.serial ≤ k → i.id ≠ Work.idOf k)
    (hs : Surveyed walk platform w.tree s)
    (hreport : Scan.project w.tree s o switch = .ok report) {out : ScanOutcome} {w' : Workspace}
    (hexec : exec (reconcile platform o report) w = (.ok out, w')) :
    Reconciled walk platform o w out w' := by
  obtain ⟨issues, fresh, w₁, r, w'', hexec', hmatched, -, -, hout⟩ :=
    exec_reconcile platform o report w
  obtain ⟨rfl, rfl⟩ : r = .ok out ∧ w'' = w' := by simpa using hexec'.symm.trans hexec
  obtain ⟨rfl, rfl, hrecords⟩ := hout out rfl
  have hnew : ∀ i ∈ fresh, i.id ∉ w.store.records.issues.map Issue.id :=
    fun i hi => hmatched.id_not_mem hfresh hi
  rw [Records.saveIssues_of_new hmatched.nodup fun i hi hmem =>
    hnew i hi ((List.filter_sublist.map Issue.id).subset hmem)] at hrecords
  have hafter : ∀ i, i ∈ w''.store.records.issues ↔
      (i ∈ w.store.records.issues ∧ i.id ∉ staleIds o out.report
        (w.store.records.listIssues { platform := some platform })) ∨ i ∈ fresh := by
    intro i
    rw [hrecords]
    simp [Records.deleteIssues]
  have hgone := fun i hi => mem_staleIds_iff (i := i) hdistinct hs hreport hmatched hi
  have hfound : ∀ i ∈ fresh, out.Reports i.toFinding.fingerprint := fun i hi =>
    hmatched.reports_iff.mpr ⟨i.toFinding, (hmatched.new i hi).1, rfl⟩
  constructor
  case stored =>
    intro i hi
    obtain ⟨f, hf, hknown | ⟨-, rfl, hi⟩⟩ := exists_of_mem_issues hmatched.taken hi
    · obtain ⟨hmem, -⟩ := knownIssue?_eq_some hknown
      obtain ⟨hmem, hplatform⟩ := Records.mem_listIssues.mp hmem
      refine ⟨i, (hafter i).mpr (Or.inl ⟨hmem, fun hid => ?_⟩), hplatform, rfl⟩
      exact ((hgone i hmem).mp hid).2.2 ⟨i, hi, rfl⟩
    · obtain ⟨p, found, ⟨-, content, -, hrun⟩, hfound, -⟩ := Scan.finds_of_mem_project hreport hf
      exact ⟨i, (hafter i).mpr (Or.inr hi),
        (Scan.file_of_mem_run hrun hfound).2.1.trans hs.platform, rfl⟩
  case reported =>
    intro hcomplete i hi hcovers
    rcases (hafter i).mp hi with ⟨hold, hid⟩ | hi
    · by_contra hnot
      exact hid ((hgone i hold).mpr ⟨hcomplete, hcovers, hnot⟩)
    · exact hfound i hi
  case kept =>
    intro i hi
    rw [hafter, ← hgone i hi, and_iff_right hi]
    refine or_iff_left fun hnewIssue => hnew i hnewIssue (List.mem_map_of_mem hi)
  case spared =>
    intro hpartial i hi
    exact (hafter i).mpr (Or.inl ⟨hi, fun hid => hpartial ((hgone i hi).mp hid).1⟩)
  case added =>
    intro i hi
    exact ((hafter i).mp hi).imp And.left fun hi => hmatched.subset hi
  case nodup =>
    rw [hrecords, List.map_append, List.nodup_append]
    refine ⟨hdistinct.sublist (List.filter_sublist.map Issue.id), hmatched.nodup, ?_⟩
    rintro id hold _ hid rfl
    obtain ⟨i, hi, rfl⟩ := List.mem_map.mp hid
    exact hnew i hi ((List.filter_sublist.map Issue.id).subset hold)

/-- A report that the store is in line with changes nothing. -/
theorem exec_reconcile_again
    (hknown : ∀ f ∈ report.findings, ∃ i ∈ w.store.records.issues,
      i.platform = platform ∧ i.toFinding.fingerprint = f.fingerprint)
    (hstale : report.cancelled = false → report.truncated = false → ∀ i ∈ w.store.records.issues,
      i.platform = platform → isStale report o i = false) :
    ∃ out, out.newIssues = 0 ∧ out.resolved = 0 ∧ exec (reconcile platform o report) w =
      ((exec Store.persistIssues w).1.map fun _ => out, (exec Store.persistIssues w).2) := by
  obtain ⟨issues, fresh, w₁, hmatch, hmatched⟩ := exec_matchKnown
    (w.store.records.listIssues { platform := some platform }) report.findings w
  have hnone : fresh = [] := by
    refine List.eq_nil_iff_forall_not_mem.mpr fun i hi => ?_
    obtain ⟨hf, hunknown, -⟩ := hmatched.new i hi
    obtain ⟨j, hj, hplatform, hsame⟩ := hknown _ hf
    exact knownIssue?_eq_none.mp hunknown j (Records.mem_listIssues.mpr ⟨hj, hplatform⟩) hsame
  obtain rfl := hmatched.unmoved hnone
  subst hnone
  have hids : staleIds o report
      (w₁.store.records.listIssues { platform := some platform }) = [] := by
    rw [staleIds]
    split
    · rfl
    · next hcomplete =>
      obtain ⟨hc, ht⟩ : report.cancelled = false ∧ report.truncated = false := by
        simpa using hcomplete
      rw [List.map_eq_nil_iff, List.filter_eq_nil_iff]
      intro i hi
      obtain ⟨hi, hplatform⟩ := Records.mem_listIssues.mp hi
      simp [hstale hc ht i hi hplatform]
  refine ⟨⟨report, issues, 0, 0⟩, rfl, rfl, ?_⟩
  have hdelete : exec (Store.deleteIssues []) w₁ = (.ok 0, w₁) := rfl
  have hsave : exec (Store.saveIssues []) w₁ = exec Store.persistIssues w₁ := rfl
  rw [exec_reconcile_eq hmatch, hids, Work.exec_bind, hdelete]
  simp only
  rw [Work.exec_bind, hsave]
  rcases exec Store.persistIssues w₁ with ⟨_ | _, w₂⟩ <;> rfl

/-- Where nothing is stored, what is new is all that is stored after a report, whether it can be
written or not. -/
theorem issues_reconcile (hempty : w.store.records.issues = []) (platform : Platform)
    (o : ScanOptions) (report : ScanReport) : ∃ issues w₁,
      Matched [] report.findings w issues
        (exec (reconcile platform o report) w).2.store.records.issues w₁ := by
  obtain ⟨issues, fresh, w₁, hmatch, hmatched⟩ := exec_matchKnown [] report.findings w
  have hlist : w.store.records.listIssues { platform := some platform } = [] := by
    simp [Records.listIssues, hempty]
  have hkeep : exec (Store.deleteIssues (staleIds o report [])) w₁ = (.ok 0, w₁) := by
    rw [staleIds, List.filter_nil, List.map_nil, ite_self]
    rfl
  have hstore := Store.store_saveIssues w₁ fresh
  rw [hmatched.store, Records.saveIssues_of_new hmatched.nodup (by simp [hempty]), hempty] at hstore
  have hissues : (exec (reconcile platform o report) w).2.store.records.issues = fresh := by
    rw [exec_reconcile_eq (hlist ▸ hmatch), hlist, Work.exec_bind, hkeep]
    simp only
    rw [Work.exec_bind]
    revert hstore
    rcases exec (Store.saveIssues fresh) w₁ with ⟨r | _, w₂⟩ <;> intro hstore <;>
      exact congrArg (·.records.issues) hstore
  exact ⟨issues, w₁, hissues ▸ hmatched⟩

/-- Where nothing is stored, a scan that succeeds keeps each finding as an issue. -/
theorem exists_issue_of_scan {walk : Walk} {o : ScanOptions} {switch : Switch} {w' : Workspace}
    {out : ScanOutcome} (hempty : w.store.records.issues = [])
    (h : exec (scan walk platform o switch) w = (.ok out, w')) {f : Finding}
    (hf : f ∈ out.report.findings) :
    ∃ i, w'.store.records.issue? i.id = some i ∧ i.toFinding = f := by
  obtain ⟨s, -, -, -, -, -, hexec⟩ := exec_scan_eq_ok h
  obtain ⟨issues, w₁, hmatched⟩ := issues_reconcile hempty platform o out.report
  rw [hexec] at hmatched
  obtain ⟨i, -, hknown | ⟨-, hfinding, hi⟩⟩ := exists_of_mem_right hmatched.taken.flip hf
  · simp [knownIssue?] at hknown
  · exact ⟨i, Records.issue?_eq hmatched.nodup hi, hfinding⟩

end

/-! ## A project of one file -/

/-- A store in memory is always brought in line. -/
theorem exec_reconcile_memory {w : Workspace} (h : w.store.home = none) (platform : Platform)
    (o : ScanOptions) (report : ScanReport) : ∃ out w',
      exec (reconcile platform o report) w = (.ok out, w') ∧ out.report = report ∧
        w'.tree = w.tree ∧ w'.store.home = none ∧
        ∃ n ≤ report.findings.length, w'.clock = w.tick^[n] w.clock := by
  obtain ⟨issues, fresh, w₁, hmatch, hmatched⟩ := exec_matchKnown
    (w.store.records.listIssues { platform := some platform }) report.findings w
  have hhome : w₁.store.home = none := by rw [hmatched.store, h]
  have hpersist : ∀ r : Records,
      exec Store.persistIssues { w₁ with store := { w₁.store with records := r } } =
        (.ok (), { w₁ with store := { w₁.store with records := r } }) :=
    fun _ => Store.exec_persistIssues_memory hhome
  have hdelete : ∀ ids, ∃ n r, exec (Store.deleteIssues ids) w₁ =
      (.ok n, { w₁ with store := { w₁.store with records := r } }) := by
    intro ids
    rw [Store.deleteIssues]
    split
    · exact ⟨0, _, rfl⟩
    · rw [Work.exec_bind, Store.exec_current]
      simp only
      rw [Work.exec_bind, Store.exec_setRecords]
      simp only
      rw [Work.exec_bind, hpersist]
      exact ⟨_, _, rfl⟩
  obtain ⟨n, r, hdelete⟩ := hdelete (staleIds o report
    (w.store.records.listIssues { platform := some platform }))
  rw [exec_reconcile_eq hmatch, Work.exec_bind, hdelete]
  simp only [Store.saveIssues]
  rw [Work.exec_bind, Work.exec_bind, Store.exec_current]
  simp only
  rw [Work.exec_bind, Store.exec_setRecords]
  simp only
  rw [hpersist]
  exact ⟨_, _, rfl, rfl, hmatched.tree, hhome, hmatched.clock⟩

/-- One finding, as far as it is of interest. -/
theorem exists_singleton_of_map {ε α β : Type} {g : α → β} {x : Except ε (List α)} {b : β}
    (h : x.map (List.map g) = .ok [b]) : ∃ a, x = .ok [a] ∧ g a = b := by
  obtain ⟨as, rfl, has⟩ := exists_of_map h
  obtain ⟨a, rfl, hb⟩ := List.map_eq_singleton_iff.mp has
  exact ⟨a, rfl, hb⟩

/-- A scan of a project of one file, whose store is in memory. -/
theorem exec_scan_projectOf {w : Workspace} {text : String}
    (htree : w.tree = (projectOf "a.ts" text).tree) (hhome : w.store.home = none)
    {platform : Platform} {o : ScanOptions} {found : List Finding}
    (hrole : o.wantsRole (FileRole.ofPath ⟨"/w/a.ts"⟩) = true)
    (hrun : Scan.run (o.rules platform) ⟨"/w/a.ts"⟩ text platform = .ok found)
    (hfew : (Scan.listed o found).length ≤ o.maxIssues) : ∃ out w',
      exec (scan wholeProject platform o false) w = (.ok out, w') ∧ out.Complete ∧
      out.report.findings = Scan.listed o found ∧ w'.tree = w.tree ∧ w'.store.home = none ∧
      ∃ n ≤ (Scan.listed o found).length, w'.clock = w.tick^[n] w.clock := by
  obtain ⟨s, report, hs, hreport, hfindings, hcancelled, htruncated⟩ :=
    exists_report_projectOf hrole hrun hfew
  rw [← htree] at hs hreport
  obtain ⟨out, w', hexec, rfl, htree', hhome', hclock⟩ :=
    exec_reconcile_memory hhome platform o report
  rw [hfindings] at hclock
  exact ⟨out, w', (exec_scan_of_report hs hreport).trans hexec, ⟨hcancelled, htruncated⟩, hfindings,
    htree', hhome', hclock⟩

/-- A value is tested for null and then asserted not to be null. -/
def testedText : String := "if (user != null) log(user);\nuser!.name;\n"

/-- What the rules object to there. -/
def assertion : Finding.Fingerprint :=
  ⟨"ts/non-null-assertion", .nullReference, [.root, .name "w", .name "a.ts"], 2, some 5⟩

theorem run_testedText : ∃ f, Scan.run (ScanOptions.rules {} .web) ⟨"/w/a.ts"⟩ testedText .web =
    .ok [f] ∧ (f.severity, f.fingerprint) = (.low, assertion) :=
  exists_singleton_of_map (g := fun f : Finding => (f.severity, f.fingerprint)) (by decide +kernel)

/-- An issue that was found in the file before. -/
def stray : Issue :=
  { id := "stray", detectedAt := ⟨0, 0⟩, rule := "ts/non-null-assertion", kind := .nullReference
    severity := .medium, platform := .web, file := ⟨"/w/a.ts"⟩, line := 9, column := none
    evidence := "", title := "", description := "" }

/-! ## Scanning twice -/

section

variable {walk : Walk} {platform : Platform} {o : ScanOptions} {switch : Switch} {w : Workspace}

/-- What comes of scanning an unchanged project once more, after a scan that was complete or called
off at the same files: the second report has no finding that the first one has not, and all of them if
it is complete. -/
theorem exists_second_report {t : FileTree} {s : Structure} {report : ScanReport}
    (hreport : Scan.project t s o switch = .ok report) {switch' : Switch}
    (hswitch : (report.cancelled = false ∧ report.truncated = false) ∨ switch' = switch) :
    ∃ report', Scan.project t s o switch' = .ok report' ∧
      (∀ f ∈ report'.findings, f ∈ report.findings) ∧
      (report'.cancelled = false → report'.truncated = false →
        (report.cancelled = false ∧ report.truncated = false) ∧
          ∀ f ∈ report.findings, f ∈ report'.findings) := by
  rcases hswitch with ⟨hcancelled, htruncated⟩ | rfl
  · obtain ⟨report', hreport'⟩ := Scan.exists_project_of_complete hreport hcancelled switch'
    have hfirst := fun f => Scan.mem_project_iff hreport hcancelled htruncated (f := f)
    refine ⟨report', hreport', fun f hf => ?_, fun hcancelled' htruncated' => ?_⟩
    · exact (hfirst f).mpr (Scan.finds_of_mem_project hreport' hf)
    · refine ⟨⟨hcancelled, htruncated⟩, fun f hf => ?_⟩
      exact (Scan.mem_project_iff hreport' hcancelled' htruncated').mpr ((hfirst f).mp hf)
  · exact ⟨report, hreport, fun _ hf => hf, fun hc ht => ⟨⟨hc, ht⟩, fun _ hf => hf⟩⟩

/-- Scanning brings the stored issues in line with the report and touches neither fixes nor the
audit trail; a scan that was called off deletes nothing. A second scan of an unchanged project finds
nothing new and nothing gone, and leaves the store as it is. It may be called off where it likes if
the first one was complete, and else is called off at the same files. -/
theorem scan_reconciled (hdistinct : (w.store.records.issues.map Issue.id).Nodup)
    (hfresh : ∀ i ∈ w.store.records.issues, ∀ k, w.serial ≤ k → i.id ≠ Work.idOf k)
    {r : Except Fault ScanOutcome} {w' : Workspace}
    (hscan : exec (scan walk platform o switch) w = (r, w')) :
    w'.store.records.fixes = w.store.records.fixes ∧
      w'.store.records.applications = w.store.records.applications ∧
      ∀ out, r = .ok out → Reconciled walk platform o w out w' ∧
        ∀ switch', out.Complete ∨ switch' = switch →
          ∀ w₂, w₂.store = w'.store → Unchanged walk w.tree w₂.tree →
            (exec (scan walk platform o switch') w₂).2.store = w₂.store ∧
              ∃ out₂, out₂.newIssues = 0 ∧ out₂.resolved = 0 ∧
                (exec (scan walk platform o switch') w₂).1 =
                  (exec Store.persistIssues w₂).1.map fun _ => out₂ := by
  obtain ⟨hfixes, htrail⟩ := fixes_scan walk platform o switch w
  rw [hscan] at hfixes htrail
  refine ⟨hfixes, htrail, ?_⟩
  rintro out rfl
  obtain ⟨s, fresh, w₁, hs, hreport, hmatched, hexec⟩ := exec_scan_eq_ok hscan
  have hreconciled := reconciled_of_report hdistinct hfresh hs hreport hexec
  refine ⟨hreconciled, fun switch' hswitch w₂ hstore hsame => ?_⟩
  obtain ⟨report', hreport', hsub, hback⟩ := exists_second_report hreport hswitch
  obtain ⟨out₂, hnew, hresolved, hagain⟩ : ∃ out₂ : ScanOutcome, out₂.newIssues = 0 ∧
      out₂.resolved = 0 ∧ exec (reconcile platform o report') w₂ =
        ((exec Store.persistIssues w₂).1.map fun _ => out₂, (exec Store.persistIssues w₂).2) := by
    refine exec_reconcile_again ?_ ?_
    · intro f hf
      obtain ⟨i, hi, hfound⟩ := hmatched.reports_iff.mpr ⟨f, hsub f hf, rfl⟩
      obtain ⟨j, hj, hplatform, hj'⟩ := hreconciled.stored i hi
      exact ⟨j, hstore ▸ hj, hplatform, hj'.trans hfound⟩
    · intro hcancelled htruncated i hi hplatform
      obtain ⟨hcomplete, hall⟩ := hback hcancelled htruncated
      rw [hstore] at hi
      rw [Bool.eq_false_iff, Ne, isStale_iff hs hreport' hcancelled hplatform]
      rintro ⟨hcovers, hnot⟩
      obtain ⟨f, hf, hfound⟩ := hmatched.reports_iff.mp (hreconciled.reported hcomplete i hi hcovers)
      exact hnot ⟨f, hall f hf, hfound⟩
  rw [exec_scan_of_report (hs.unchanged hsame)
    ((hs.project_unchanged hsame o switch').trans hreport'), hagain]
  exact ⟨Store.store_persistIssues w₂, out₂, hnew, hresolved, rfl⟩

end

/-- The file is scanned, the old issue is gone and another one is stored. Scanning once more changes
nothing. -/
theorem scan_reconciled_stray : ∃ out w' out₂ w₂,
    exec (scan wholeProject .web {} false)
      { projectOf "a.ts" testedText with store := { records := { issues := [stray] } } } =
        (.ok out, w') ∧
    stray ∉ w'.store.records.issues ∧
    (∃ i ∈ w'.store.records.issues, i.toFinding.fingerprint = assertion) ∧
    exec (scan wholeProject .web {} false) w' = (.ok out₂, w₂) ∧ out₂.newIssues = 0 ∧
    out₂.resolved = 0 ∧ w₂.store = w'.store := by
  obtain ⟨f, hrun, hf⟩ := run_testedText
  have hlisted : Scan.listed {} [f] = [f] := by simp [Scan.listed]
  obtain ⟨out, w', hscan, hcomplete, hfindings, htree, hhome, -⟩ := exec_scan_projectOf
    (w := { projectOf "a.ts" testedText with store := { records := { issues := [stray] } } }) rfl rfl
    (by decide) hrun (by simp [hlisted])
  rw [hlisted] at hfindings
  obtain ⟨-, -, hout⟩ := scan_reconciled (by simp) (by
    intro i hi k _ hid
    have hlength := congrArg List.length (Work.take_idOf k)
    have := Work.length_idDigits k
    obtain rfl : i = stray := by simpa using hi
    rw [← hid] at hlength
    simp [stray] at hlength
    omega) hscan
  obtain ⟨hreconciled, hagain⟩ := hout out rfl
  obtain ⟨hstore, out₂, hnew, hresolved, hsecond⟩ := hagain _ (Or.inr rfl) w' rfl
    ⟨by rw [htree], by rw [htree], by rw [htree]; exact fun _ _ => rfl⟩
  rw [Store.exec_persistIssues_memory hhome] at hsecond
  obtain ⟨s, fresh, w₁, -, -, hmatched, -⟩ := exec_scan_eq_ok hscan
  have hreports : ∀ fp, out.Reports fp ↔ assertion = fp := by
    intro fp
    rw [hmatched.reports_iff, hfindings]
    simp [(Prod.mk.inj hf).2]
  refine ⟨out, w', out₂, _, hscan, ?_, ?_, Prod.ext hsecond rfl, hnew, hresolved, hstore⟩
  · rw [hreconciled.kept stray (by simp), not_not]
    refine ⟨hcomplete, ⟨rfl, ?_, by decide, by simp⟩, ?_⟩
    · refine ⟨⟨"/w/a.ts"⟩, ?_, by decide, by decide, testedText, readText_projectOf _⟩
      exact (files_projectOf testedText) ▸ List.mem_singleton_self _
    · rw [hreports]
      decide
  · obtain ⟨i, hi, hsame⟩ := (hreports assertion).mpr rfl
    obtain ⟨j, hj, -, hj'⟩ := hreconciled.stored i hi
    exact ⟨j, hj, hj'.trans hsame⟩

end Service

end Mend
