import Mend.Proofs.Remediation.Source
import Mend.Proofs.Store.Basic
import Mend.Remediation.Service
import Mathlib.Data.List.Nodup

/-!
# Operations that change no fix

Between operations a workspace is sound (`Workspace.Sound`): the store can be written, fixes have ids
of their own that were given out, and issues and fixes are about source files. An operation that
keeps a workspace sound, writes no file but those of the store, adds nothing to the audit trail and
leaves the fixes as they are but for new suggestions is calm (`Workspace.Calm`). Calm operations can
be put together (`Calmly.bind`). An operation that replaces a fix or adds to the trail turns the
workspace (`Workspace.Turns`).
-/

namespace Mend

open Work (exec)

/-- What holds of a workspace between operations. -/
structure Workspace.Sound (w : Workspace) : Prop extends w.Ready where
  issue_source : ∀ i ∈ w.store.records.issues, w.tree.Source i.file
  fix_source : ∀ f ∈ w.store.records.fixes, w.tree.Source f.file
  fix_id : ∀ f ∈ w.store.records.fixes, ∃ k < w.serial, f.id = Work.idOf k
  nodup : (w.store.records.fixes.map Fix.id).Nodup

namespace Workspace.Sound

variable {w w' : Workspace} {changed : Place → Prop}

/-- A change that keeps the fixes and adds issues about source files at most. -/
theorem of_moves (hw : w.Sound) (h : w.Moves changed w')
    (hissues : ∀ i ∈ w'.store.records.issues, i ∈ w.store.records.issues ∨ w'.tree.Source i.file)
    (hfixes : w'.store.records.fixes = w.store.records.fixes) : w'.Sound where
  toReady := h.ready hw.toReady
  issue_source i hi := (hissues i hi).elim (fun hi => (hw.issue_source i hi).becomes h.tree) id
  fix_source f hf := (hw.fix_source f (hfixes ▸ hf)).becomes h.tree
  fix_id f hf := by
    obtain ⟨k, hk, hid⟩ := hw.fix_id f (hfixes ▸ hf)
    exact ⟨k, hk.trans_le h.serial, hid⟩
  nodup := hfixes ▸ hw.nodup

/-- A change that keeps all the records. -/
theorem of_moves_eq (hw : w.Sound) (h : w.Moves changed w')
    (hrecords : w'.store.records = w.store.records) : w'.Sound :=
  hw.of_moves h (fun i hi => Or.inl (hrecords ▸ hi)) (by rw [hrecords])

/-- A change that puts a fix of a source file in the place of the one with its id. -/
theorem of_put (hw : w.Sound) (h : w.Moves changed w') {f : Fix}
    (hissues : w'.store.records.issues = w.store.records.issues)
    (hfixes : w'.store.records.fixes = Records.put Fix.id f w.store.records.fixes)
    (hsource : w'.tree.Source f.file) (hid : ∃ k < w'.serial, f.id = Work.idOf k) :
    w'.Sound where
  toReady := h.ready hw.toReady
  issue_source i hi := (hw.issue_source i (hissues ▸ hi)).becomes h.tree
  fix_source g hg := by
    rw [hfixes] at hg
    rcases Records.mem_of_mem_put hg with rfl | hg
    · exact hsource
    · exact (hw.fix_source g hg).becomes h.tree
  fix_id g hg := by
    rw [hfixes] at hg
    rcases Records.mem_of_mem_put hg with rfl | hg
    · exact hid
    · obtain ⟨k, hk, hg⟩ := hw.fix_id g hg
      exact ⟨k, hk.trans_le h.serial, hg⟩
  nodup := by
    rw [hfixes]
    exact Records.nodup_put f hw.nodup

/-- Fixes with one id are one fix. -/
theorem eq_of_id (hw : w.Sound) {f g : Fix} (hf : f ∈ w.store.records.fixes)
    (hg : g ∈ w.store.records.fixes) (h : f.id = g.id) : f = g :=
  List.inj_on_of_nodup_map hw.nodup hf hg h

theorem fix?_eq (hw : w.Sound) {f : Fix} (hf : f ∈ w.store.records.fixes) :
    w.store.records.fix? f.id = some f := by
  cases hfind : w.store.records.fix? f.id with
  | none =>
    rw [Records.fix?, List.find?_eq_none] at hfind
    simpa using hfind f hf
  | some g =>
    obtain ⟨hg, hid⟩ := Records.fix?_eq_some hfind
    rw [hw.eq_of_id hg hf hid]

end Workspace.Sound

/-! ## Turns -/

/-- The workspace stays sound, bytes change at some places only, the fixes become those given, and
lines are added to the audit trail. -/
structure Workspace.Turns (w : Workspace) (changed : Place → Prop) (fixes : List Fix)
    (lines : List Application) (w' : Workspace) : Prop where
  sound : w'.Sound
  moves : w.Moves changed w'
  fixes_eq : w'.store.records.fixes = fixes
  trail_eq : w'.store.records.applications = w.store.records.applications ++ lines

/-- A fix takes the place of one with the same id and file. -/
theorem Workspace.Sound.turns_put {w w' : Workspace} {changed : Place → Prop} (hw : w.Sound)
    (h : w.Moves changed w') {f : Fix} (hf : f ∈ w.store.records.fixes) (f' : Fix)
    (hid : f'.id = f.id) (hfile : f'.file = f.file) {lines : List Application}
    (hrecords : w'.store.records =
      { w.store.records with
        fixes := Records.put Fix.id f' w.store.records.fixes
        applications := w.store.records.applications ++ lines }) :
    w.Turns changed (Records.put Fix.id f' w.store.records.fixes) lines w' := by
  obtain ⟨k, hk, hfid⟩ := hw.fix_id f hf
  refine ⟨?_, h, by rw [hrecords], by rw [hrecords]⟩
  refine hw.of_put h (by rw [hrecords]) (by rw [hrecords]) ?_ ⟨k, hk.trans_le h.serial, hid.trans hfid⟩
  rw [hfile]
  exact (hw.fix_source f hf).becomes h.tree

/-! ## Calm operations -/

/-- The fix is as the policy makes it: confirmed at once, or pending. -/
structure Fix.Suggested (p : Policy) (f : Fix) : Prop where
  status : f.status = if p.confirms f.confidence then .confirmed else .pending
  confirmedAt : f.status = .confirmed → f.confirmedAt.isSome

theorem Fix.Suggested.pending_or_confirmed {p : Policy} {f : Fix} (h : f.Suggested p) :
    f.status = .pending ∨ f.status = .confirmed := by
  rw [h.status]
  split
  · exact Or.inr rfl
  · exact Or.inl rfl

/-- The workspace stays sound, no file is written but those of the store, and the records stay as
they are but for issues and new suggestions. -/
structure Workspace.Calm (p : Policy) (w w' : Workspace) : Prop where
  sound : w'.Sound
  moves : w.Moves (Store.FileOf w) w'
  files : ∀ q, Store.FileOf w' q → Store.FileOf w q
  fixes : ∃ news, w'.store.records.fixes = w.store.records.fixes ++ news ∧ ∀ f ∈ news, f.Suggested p
  trail : w'.store.records.applications = w.store.records.applications

namespace Workspace.Calm

variable {p : Policy} {w w' w'' : Workspace}

theorem trans (h : w.Calm p w') (h' : w'.Calm p w'') : w.Calm p w'' where
  sound := h'.sound
  moves := h.moves.trans (h'.moves.mono h.files)
  files q hq := h.files q (h'.files q hq)
  fixes := by
    obtain ⟨news, hfixes, hnews⟩ := h.fixes
    obtain ⟨news', hfixes', hnews'⟩ := h'.fixes
    refine ⟨news ++ news', by rw [hfixes', hfixes, List.append_assoc], fun f hf => ?_⟩
    exact (List.mem_append.mp hf).elim (hnews f) (hnews' f)
  trail := h'.trail.trans h.trail

theorem of_moves (hw : w.Sound) (h : w.Moves (Store.FileOf w) w')
    (hissues : ∀ i ∈ w'.store.records.issues, i ∈ w.store.records.issues ∨ w'.tree.Source i.file)
    (hfixes : w'.store.records.fixes = w.store.records.fixes)
    (htrail : w'.store.records.applications = w.store.records.applications) : w.Calm p w' where
  sound := hw.of_moves h hissues hfixes
  moves := h
  files _ hq := Store.fileOf_of_moves hw.toReady h hq
  fixes := ⟨[], by rw [hfixes, List.append_nil], by simp⟩
  trail := htrail

theorem of_moves_eq (hw : w.Sound) (h : w.Moves (Store.FileOf w) w')
    (hrecords : w'.store.records = w.store.records) : w.Calm p w' :=
  of_moves hw h (fun i hi => Or.inl (hrecords ▸ hi)) (by rw [hrecords]) (by rw [hrecords])

theorem refl (hw : w.Sound) : w.Calm p w := of_moves_eq hw (.refl _ _) rfl

/-- A suggestion is kept under a new id. -/
theorem of_suggestion (hw : w.Sound) (h : w.Moves (Store.FileOf w) w') {f : Fix}
    (hrecords : w'.store.records = w.store.records.saveFix f) (hf : f.Suggested p)
    (hsource : w'.tree.Source f.file) (hid : ∃ k < w'.serial, f.id = Work.idOf k)
    (hnew : f.id ∉ w.store.records.fixes.map Fix.id) : w.Calm p w' where
  sound := hw.of_put h (by rw [hrecords]; rfl) (by rw [hrecords]; rfl) hsource hid
  moves := h
  files _ hq := Store.fileOf_of_moves hw.toReady h hq
  fixes := ⟨[f], by rw [hrecords]; exact Records.put_of_not_mem hnew, by simpa using hf⟩
  trail := by rw [hrecords]; rfl

end Workspace.Calm

/-- The operation is calm, and what it gives is as described. -/
def Calmly {α : Type} (p : Policy) (w : Workspace) (x : Work α) (Q : α → Workspace → Prop) : Prop :=
  w.Calm p (exec x w).2 ∧ ∀ a, (exec x w).1 = .ok a → Q a (exec x w).2

namespace Calmly

variable {α β : Type} {p : Policy} {w : Workspace} {x : Work α} {f : α → Work β} {P : α → Workspace → Prop}
  {Q : β → Workspace → Prop}

theorem pure (hw : w.Sound) {b : β} (h : Q b w) : Calmly p w (pure b) Q :=
  ⟨.refl hw, fun _ hb => Except.ok.inj hb ▸ h⟩

theorem throw (hw : w.Sound) (e : Fault) : Calmly p w (throw e : Work β) Q :=
  ⟨.refl hw, fun _ hb => by cases hb⟩

theorem bind (hx : Calmly p w x P) (hf : ∀ a w', w.Calm p w' → P a w' → Calmly p w' (f a) Q) :
    Calmly p w (x >>= f) Q := by
  rw [Calmly, Work.exec_bind]
  obtain ⟨hcalm, hresult⟩ := hx
  rcases hexec : exec x w with ⟨r, w'⟩
  rw [hexec] at hcalm hresult
  cases r with
  | error e => exact ⟨hcalm, fun _ hb => by cases hb⟩
  | ok a =>
    obtain ⟨hcalm', hresult'⟩ := hf a w' hcalm (hresult a rfl)
    exact ⟨hcalm.trans hcalm', hresult'⟩

/-- After an operation that only looks. -/
theorem look {a : α} (hx : exec x w = (.ok a, w)) (hf : Calmly p w (f a) Q) :
    Calmly p w (x >>= f) Q := by
  rw [Calmly, Work.exec_bind, hx]
  exact hf

theorem mono {P' : α → Workspace → Prop} (hx : Calmly p w x P)
    (h : ∀ a w', w.Calm p w' → P a w' → P' a w') : Calmly p w x P' :=
  ⟨hx.1, fun a ha => h a _ hx.1 (hx.2 a ha)⟩

/-- After a step that may be refused. -/
theorem ofExcept (hw : w.Sound) {r : Except Fault α} (hf : ∀ a, r = .ok a → Calmly p w (f a) Q) :
    Calmly p w (Work.ofExcept r >>= f) Q := by
  rw [Calmly, Work.exec_bind, Work.exec_ofExcept]
  cases r with
  | error e => exact Calmly.throw hw e
  | ok a => exact hf a rfl

theorem attempt (hx : Calmly p w x P) :
    Calmly p w x.attempt fun r w' => ∀ a, r = .ok a → P a w' := by
  rw [Calmly, Work.exec_attempt]
  refine ⟨hx.1, ?_⟩
  rintro r ⟨⟩ a ha
  exact hx.2 a ha

/-- What changes the records and nothing else of note. -/
theorem of_stores {a : α} {r : Records} (hx : Store.Stores w x a r)
    (h : ∀ w', w.Moves (Store.FileOf w) w' → w'.store.records = r → w.Calm p w') :
    Calmly p w x fun _ w' => w'.store.records = r := by
  obtain ⟨w', hexec, hmoves, hrecords⟩ := hx
  rw [Calmly, hexec]
  exact ⟨h w' hmoves hrecords, fun _ _ => hrecords⟩

/-- After a look at the clock. -/
theorem now (hw : w.Sound) {g : Time → Work β}
    (hg : w.Calm p { w with clock := w.tick w.clock } →
      Calmly p { w with clock := w.tick w.clock } (g (w.tick w.clock)) Q) :
    Calmly p w (Work.now >>= g) Q := by
  have hcalm : w.Calm p { w with clock := w.tick w.clock } :=
    .of_moves_eq hw (moves_now _ w) rfl
  obtain ⟨hcalm', hresult⟩ := hg hcalm
  rw [Calmly, Work.exec_bind, Work.exec_now]
  exact ⟨hcalm.trans hcalm', hresult⟩

/-- After an id was given out with a moment. -/
theorem freshId_now (hw : w.Sound) {g : String → Time → Work β}
    (hg : w.Calm p { w with serial := w.serial + 1, clock := w.tick w.clock } →
      Calmly p { w with serial := w.serial + 1, clock := w.tick w.clock }
        (g (Work.idOf w.serial) (w.tick w.clock)) Q) :
    Calmly p w (do g (← Work.freshId) (← Work.now)) Q := by
  have hcalm : w.Calm p { w with serial := w.serial + 1, clock := w.tick w.clock } :=
    .of_moves_eq hw (moves_now_freshId _ w) rfl
  obtain ⟨hcalm', hresult⟩ := hg hcalm
  rw [Calmly, Work.exec_bind, Work.exec_freshId]
  simp only
  rw [Work.exec_bind, Work.exec_now]
  exact ⟨hcalm.trans hcalm', hresult⟩

theorem reading (hw : w.Sound) (file : Path) (g : FileTree → Except IoError α) :
    Calmly p w (Work.reading file g) fun _ _ => True := by
  rw [Calmly, Work.exec_reading]
  exact ⟨.refl hw, fun _ _ => trivial⟩

theorem uncut (hw : w.Sound) {r : Except Text.BadOffset α} (h : ∀ a, r = .ok a → P a w) :
    Calmly p w (Service.uncut r) P := by
  cases r with
  | error e => exact .throw hw _
  | ok a => exact .pure hw (h a rfl)

end Calmly

/-! ## Records of the store -/

namespace Service

variable {p : Policy} {w : Workspace}

theorem calmly_issue (hw : w.Sound) (id : String) :
    Calmly p w (issue id) fun i w' => w'.tree.Source i.file := by
  refine Calmly.look (a := w.store.records.issue? id) rfl ?_
  cases hi : w.store.records.issue? id with
  | none => exact .throw hw _
  | some i => exact .pure hw (hw.issue_source i (List.mem_of_find?_eq_some hi))

theorem calmly_fix (hw : w.Sound) (id : String) :
    Calmly p w (fix id) fun f w' => f ∈ w'.store.records.fixes ∧ f.id = id := by
  refine Calmly.look (a := w.store.records.fix? id) rfl ?_
  cases hf : w.store.records.fix? id with
  | none => exact .throw hw _
  | some f => exact .pure hw (Records.fix?_eq_some hf)

theorem calmly_listIssues (hw : w.Sound) (filter : IssueFilter) :
    Calmly p w (Store.listIssues filter) fun issues w' =>
      ∀ i ∈ issues, i ∈ w'.store.records.issues := by
  refine ⟨.refl hw, ?_⟩
  rintro issues ⟨⟩ i hi
  exact (List.mem_filter.mp (List.mem_mergeSort.mp hi)).1

theorem calmly_listFixes (hw : w.Sound) (filter : FixFilter) :
    Calmly p w (Store.listFixes filter) fun _ _ => True :=
  ⟨.refl hw, fun _ _ => trivial⟩

/-- A suggestion is kept under a new id. -/
theorem calmly_saveFix (hw : w.Sound) {f : Fix} {k : Nat} (hid : f.id = Work.idOf k)
    (hk : k < w.serial) (hnew : f.id ∉ w.store.records.fixes.map Fix.id)
    (hsource : w.tree.Source f.file) (hf : f.Suggested p) :
    Calmly p w (Store.saveFix f) fun _ _ => True := by
  refine (Calmly.of_stores (Store.stores_saveFix hw.toReady f) ?_).mono fun _ _ _ _ => trivial
  intro w' hmoves hrecords
  exact .of_suggestion hw hmoves hrecords hf (hsource.becomes hmoves.tree)
    ⟨k, hk.trans_le hmoves.serial, hid⟩ hnew

end Service

end Mend
