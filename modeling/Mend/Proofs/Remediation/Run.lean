import Mend.Proofs.Remediation.Rollback

/-!
# Runs of operations

What an operation can come to is said once (`Service.Does`), and every operation on a sound workspace
comes to that (`Service.does_perform`). A run (`Service.Runs`) performs operations one after the
other, in any order, whether they succeed or not. Between two of them others may write files and move
the clock (`Workspace.Meddled`), or nobody does anything (`Workspace.Left`). What holds at the start
and is kept by every operation and by the others holds after every run (`Runs.sound_and`).
-/

namespace Mend

open Work (exec)

namespace Service

/-! ## Operations -/

/-- An operation of the service. -/
inductive Operation where
  | scan (walk : Walk) (platform : Platform) (options : ScanOptions) (switch : Switch)
  | suggest (issueId : String)
  | suggestAll (filter : IssueFilter)
  | confirm (fixId : String)
  | reject (fixId : String)
  | apply (fixId : String)
  | rollback (fixId : String)
  | retry (fixId : String)

namespace Operation

/-- The operation looks for issues or makes fixes. -/
def suggests : Operation → Bool
  | scan .. | suggest _ | suggestAll _ | retry _ => true
  | confirm _ | reject _ | apply _ | rollback _ => false

/-- The operation can write files of a project. -/
def edits : Operation → Bool
  | apply _ | rollback _ => true
  | _ => false

end Operation

/-- Perform an operation; only whether it failed is given back. -/
def perform (s : Service) : Operation → Work Unit
  | .scan walk platform options switch =>
    (fun _ => ()) <$> Service.scan walk platform options switch
  | .suggest issueId => (fun _ => ()) <$> s.suggest issueId
  | .suggestAll filter => (fun _ => ()) <$> s.suggestAll filter
  | .confirm fixId => (fun _ => ()) <$> Service.confirm fixId
  | .reject fixId => (fun _ => ()) <$> Service.reject fixId
  | .apply fixId => (fun _ => ()) <$> s.apply fixId
  | .rollback fixId => (fun _ => ()) <$> Service.rollback fixId
  | .retry fixId => (fun _ => ()) <$> s.retry fixId

/-- What an operation can come to. -/
inductive Does (s : Service) (w : Workspace) :
    Operation → Except Fault Unit → Workspace → Prop
  /-- Scanning and suggesting add issues and fixes at most. -/
  | suggests {o r w'} (ho : o.suggests = true) (h : w.Calm s.policy w') : Does s w o r w'
  /-- An operation that is refused does nothing. -/
  | refused {o fault} : Does s w o (.error fault) w
  | confirms {f now w'} (hf : f ∈ w.store.records.fixes) (hstatus : f.status = .pending)
      (h : w.Turns (Store.FileOf w)
        (Records.put Fix.id (confirmed f now) w.store.records.fixes) [] w') :
      Does s w (.confirm f.id) (.ok ()) w'
  | rejects {f w'} (hf : f ∈ w.store.records.fixes) (hstatus : f.status = .pending)
      (h : w.Turns (Store.FileOf w)
        (Records.put Fix.id (rejected f) w.store.records.fixes) [] w') :
      Does s w (.reject f.id) (.ok ()) w'
  /-- A fix that cannot be applied leaves its file as it was. -/
  | fails {f fault now w'} (hf : f ∈ w.store.records.fixes) (hstatus : f.status = .confirmed)
      (h : w.Turns (fun q => Backup.Next w w'.tree s.applier.backups q ∨ Store.FileOf w q)
        (Records.put Fix.id (failed f) w.store.records.fixes) [failedLine f fault now] w') :
      Does s w (.apply f.id) (.error fault) w'
  | applies {f outcome now place old new w'} (hf : f ∈ w.store.records.fixes)
      (hstatus : f.status = .confirmed) (h : w.Laid s f outcome now place old new w') :
      Does s w (.apply f.id) (.ok ()) w'
  /-- A fix whose copy cannot be read or written back stays applied. -/
  | sticks {f backup fault now w'} (hf : w.Newest f) (hbackup : f.backupPath = some backup)
      (h : w.Turns (Store.FileOf w) w.store.records.fixes
        [rollbackLine f backup (.error fault) now] w') :
      Does s w (.rollback f.id) (.error fault) w'
  | lifts {f backup bytes now place w'} (hf : w.Newest f) (hbackup : f.backupPath = some backup)
      (hbytes : exec (Backup.verifiedBytes backup) w = (.ok bytes, w))
      (h : w.Lifted f backup now place bytes w') :
      Does s w (.rollback f.id) (.ok ()) w'

variable {s : Service} {w w' : Workspace} {o : Operation} {r : Except Fault Unit}

theorem Does.of_calmly {α : Type} {x : Work α} (ho : o.suggests = true)
    (h : Calmly s.policy w x fun _ _ => True) :
    s.Does w o (exec ((fun _ => ()) <$> x) w).1 (exec ((fun _ => ()) <$> x) w).2 := by
  rw [Work.exec_map]
  exact .suggests ho h.1

theorem does_rollback (hw : w.Sound) (id : String) :
    s.Does w (.rollback id) (exec (s.perform (.rollback id)) w).1
      (exec (s.perform (.rollback id)) w).2 := by
  rw [perform, Work.exec_map]
  rcases exec_rollback hw id with ⟨fault, hexec⟩ | ⟨f, backup, hf, rfl, hbackup⟩
  · rw [hexec]
    exact .refused
  · rcases exec_rollback_newest hw hf hbackup with
      ⟨fault, now, w', hexec, -, hturns⟩ | ⟨bytes, now, place, w', hbytes, hexec, hlifted⟩
    · rw [hexec]
      exact .sticks hf hbackup hturns
    · rw [hexec]
      exact .lifts hf hbackup hbytes hlifted

theorem does_apply (hw : w.Sound) (hrep : w.Representable)
    (hdir : ∀ n, .name n ∈ s.applier.backups.parts → n ∉ Store.files) (id : String) :
    s.Does w (.apply id) (exec (s.perform (.apply id)) w).1 (exec (s.perform (.apply id)) w).2 := by
  rw [perform, Work.exec_map]
  rcases exec_apply s hw hrep hdir id with ⟨fault, hexec⟩ | ⟨f, hf, rfl, hstatus, hcases⟩
  · rw [hexec]
    exact .refused
  · rcases hcases with
      ⟨fault, now, w', hexec, hturns⟩ | ⟨outcome, now, place, old, new, w', hexec, hlaid⟩
    · rw [hexec]
      exact .fails hf hstatus hturns
    · rw [hexec]
      exact .applies hf hstatus hlaid

/-- Every operation comes to one of these. -/
theorem does_perform (hw : w.Sound) (hrep : w.Representable)
    (hdir : ∀ n, .name n ∈ s.applier.backups.parts → n ∉ Store.files) (o : Operation) :
    s.Does w o (exec (s.perform o) w).1 (exec (s.perform o) w).2 := by
  cases o with
  | scan walk platform options switch =>
    exact .of_calmly rfl (calmly_scan hw walk platform options switch)
  | suggest issueId => exact .of_calmly rfl (calmly_suggest s hw issueId)
  | suggestAll filter => exact .of_calmly rfl (calmly_suggestAll s hw filter)
  | retry fixId => exact .of_calmly rfl (calmly_retry s hw fixId)
  | apply fixId => exact does_apply hw hrep hdir fixId
  | rollback fixId => exact does_rollback hw fixId
  | confirm fixId =>
    rw [perform, Work.exec_map]
    rcases exec_confirm hw fixId with ⟨fault, hexec⟩ | ⟨f, hf, rfl, hstatus, now, w', hexec, h⟩
    · rw [hexec]
      exact .refused
    · rw [hexec]
      exact .confirms hf hstatus h
  | reject fixId =>
    rw [perform, Work.exec_map]
    rcases exec_reject hw fixId with ⟨fault, hexec⟩ | ⟨f, hf, rfl, hstatus, w', hexec, h⟩
    · rw [hexec]
      exact .refused
    · rw [hexec]
      exact .rejects hf hstatus h

theorem Does.sound (h : s.Does w o r w') (hw : w.Sound) : w'.Sound := by
  cases h with
  | suggests _ h => exact h.sound
  | refused => exact hw
  | confirms _ _ h => exact h.sound
  | rejects _ _ h => exact h.sound
  | fails _ _ h => exact h.sound
  | applies _ _ h => exact h.turns.sound
  | sticks _ _ h => exact h.sound
  | lifts _ _ _ h => exact h.turns.sound

/-- The operation succeeded, and applied a confirmed fix of the file at a place or rolled back an
applied one. -/
def Edits (w : Workspace) (o : Operation) (r : Except Fault Unit) (q : Place) : Prop :=
  r = .ok () ∧ ∃ f ∈ w.store.records.fixes, w.tree.FileAt f.file q ∧
    (o = .apply f.id ∧ f.status = .confirmed ∨ o = .rollback f.id ∧ f.status = .applied)

/-- An operation writes the file that it edits, the next copy and the files of the store. -/
theorem Does.moves (h : s.Does w o r w') :
    w.Moves (fun q => Edits w o r q ∨ Backup.Next w w'.tree s.applier.backups q ∨
      Store.FileOf w q) w' := by
  cases h with
  | suggests _ h => exact h.moves.mono fun _ hq => Or.inr (Or.inr hq)
  | refused => exact .refl _ _
  | confirms _ _ h => exact h.moves.mono fun _ hq => Or.inr (Or.inr hq)
  | rejects _ _ h => exact h.moves.mono fun _ hq => Or.inr (Or.inr hq)
  | fails _ _ h => exact h.moves.mono fun _ hq => Or.inr hq
  | sticks _ _ h => exact h.moves.mono fun _ hq => Or.inr (Or.inr hq)
  | @applies f _ _ place _ _ _ hf hstatus h =>
    refine h.turns.moves.mono fun q hq => hq.imp_left ?_
    rintro rfl
    exact ⟨rfl, f, hf, h.fileAt, Or.inl ⟨rfl, hstatus⟩⟩
  | @lifts f _ _ _ place _ hf _ _ h =>
    refine h.turns.moves.mono ?_
    rintro q (rfl | hq)
    · exact Or.inl ⟨rfl, f, hf.1.1, h.fileAt, Or.inr ⟨rfl, hf.1.2⟩⟩
    · exact Or.inr (Or.inr hq)

/-- Operations other than applying and rolling back write no file but those of the store. -/
theorem Does.moves_files (h : s.Does w o r w') (ho : o.edits = false) :
    w.Moves (Store.FileOf w) w' := by
  cases h with
  | suggests _ h => exact h.moves
  | refused => exact .refl _ _
  | confirms hf hstatus h => exact h.moves
  | rejects hf hstatus h => exact h.moves
  | fails | applies | sticks | lifts => cases ho

/-! ## Runs -/

/-- An operation that was performed, how it ended, and the workspaces around it. -/
structure Step where
  operation : Operation
  result : Except Fault Unit
  before : Workspace
  after : Workspace

/-- The step that performs an operation on a workspace. -/
def stepOf (s : Service) (o : Operation) (w : Workspace) : Step :=
  ⟨o, (exec (s.perform o) w).1, w, (exec (s.perform o) w).2⟩

/-- The workspace after a run and the steps of the run, the last one first. Between operations the
others may do something. -/
inductive Runs (s : Service) (others : Workspace → Workspace → Prop) (w₀ : Workspace) :
    List Step → Workspace → Prop
  | start : Runs s others w₀ [] w₀
  | perform {steps w} (h : Runs s others w₀ steps w) (hrep : w.Representable) (o : Operation) :
      Runs s others w₀ (s.stepOf o w :: steps) (s.stepOf o w).after
  | meddle {steps w w'} (h : Runs s others w₀ steps w) (hothers : others w w') :
      Runs s others w₀ steps w'

/-- Work can start: the store is empty and can be written, and no backup goes to its files. -/
structure Fresh (s : Service) (w : Workspace) : Prop where
  ready : w.Ready
  empty : w.store.records = {}
  backups : ∀ n, .name n ∈ s.applier.backups.parts → n ∉ Store.files

end Service

/-- Others wrote files or made directories, or time went by. Nothing was removed or renamed, and the
store and the disk were left alone; what the disk refuses may depend on the files and the time. -/
structure Workspace.Meddled (w w' : Workspace) : Prop where
  tree : FileTree.Becomes (fun _ => True) Free w.tree w'.tree
  disk : w'.disk = w.disk
  store : w'.store = w.store
  serial : w.serial ≤ w'.serial

/-- Nobody did anything. -/
def Workspace.Left (w w' : Workspace) : Prop := w' = w

theorem Workspace.Left.meddled {w w' : Workspace} (h : w.Left w') : w.Meddled w' := by
  obtain rfl := h
  exact ⟨.refl _ _ _, rfl, rfl, le_rfl⟩

theorem Workspace.Meddled.sound {w w' : Workspace} (h : w.Meddled w') (hw : w.Sound) :
    w'.Sound where
  toReady := hw.toReady.becomes h.tree h.disk (by rw [h.store])
  issue_source i hi := (hw.issue_source i (h.store ▸ hi)).becomes h.tree
  fix_source f hf := (hw.fix_source f (h.store ▸ hf)).becomes h.tree
  fix_id f hf := by
    obtain ⟨k, hk, hid⟩ := hw.fix_id f (h.store ▸ hf)
    exact ⟨k, hk.trans_le h.serial, hid⟩
  nodup := h.store.symm ▸ hw.nodup

namespace Service

variable {s : Service} {others : Workspace → Workspace → Prop} {w₀ w : Workspace}
  {steps : List Step}

theorem Fresh.sound (h : s.Fresh w₀) : w₀.Sound where
  toReady := h.ready
  issue_source := by simp [h.empty]
  fix_source := by simp [h.empty]
  fix_id := by simp [h.empty]
  nodup := by simp [h.empty]

/-- What holds at the start and is kept by operations and by the others holds after a run. -/
theorem Runs.sound_and {I : List Step → Workspace → Prop} (h : s.Runs others w₀ steps w)
    (hw₀ : s.Fresh w₀) (hothers : ∀ {w w'}, others w w' → w.Meddled w') (hstart : I [] w₀)
    (hdoes : ∀ {steps w o r w'}, w.Sound → I steps w → s.Does w o r w' →
      I (⟨o, r, w, w'⟩ :: steps) w')
    (hmeddle : ∀ {steps w w'}, w.Sound → I steps w → others w w' → I steps w') :
    w.Sound ∧ I steps w := by
  induction h with
  | start => exact ⟨hw₀.sound, hstart⟩
  | perform _ hrep o ih =>
    have hstep := does_perform ih.1 hrep hw₀.backups o
    exact ⟨hstep.sound ih.1, hdoes ih.1 ih.2 hstep⟩
  | meddle _ hmeddled ih => exact ⟨(hothers hmeddled).sound ih.1, hmeddle ih.1 ih.2 hmeddled⟩

theorem Runs.sound (h : s.Runs others w₀ steps w) (hw₀ : s.Fresh w₀)
    (hothers : ∀ {w w'}, others w w' → w.Meddled w') : w.Sound :=
  (h.sound_and (I := fun _ _ => True) hw₀ hothers trivial (fun _ _ _ => trivial)
    fun _ _ _ => trivial).1

/-- Files stay where they are. -/
theorem Runs.fileAt (h : s.Runs others w₀ steps w) (hw₀ : s.Fresh w₀)
    (hothers : ∀ {w w'}, others w w' → w.Meddled w') {p : Path} {place : Place}
    (hp : w₀.tree.FileAt p place) : w.tree.FileAt p place :=
  (h.sound_and (I := fun _ w => w.tree.FileAt p place) hw₀ hothers hp
    (fun _ hp hdoes => hp.becomes hdoes.moves.tree)
    fun _ hp hmeddled => hp.becomes (hothers hmeddled).tree).2

/-! ## Operations in a row -/

/-- The workspace after operations, whether they succeed or not. -/
def after (s : Service) : List Operation → Workspace → Workspace
  | [], w => w
  | o :: os, w => s.after os (s.stepOf o w).after

end Service

/-- The store is in memory, the clock shows moments of the calendar however often it is read, and
files are not too large. -/
structure Workspace.Modest (w : Workspace) : Prop where
  home : w.store.home = none
  clock : ∀ n : Nat, (w.tick^[n] w.clock).InCalendar
  size : ∀ q bytes, w.tree.get? q = some (.file bytes) → bytes.size ≤ Data.countLimit

namespace Workspace.Modest

variable {w w' : Workspace}

theorem representable (h : w.Modest) : w.Representable := ⟨h.clock 1, h.size⟩

/-- A workspace that comes later is modest, too, if no file is too large there. -/
theorem later (h : w.Modest) (hprecedes : w.Precedes w') (hhome : w'.store.home = none)
    (hsize : ∀ q bytes, w'.tree.get? q = some (.file bytes) → bytes.size ≤ Data.countLimit) :
    w'.Modest where
  home := hhome
  clock := by
    intro n
    obtain ⟨m, -, hclock⟩ := hprecedes.clock
    rw [hprecedes.tick, hclock, ← Function.iterate_add_apply]
    exact h.clock (n + m)
  size := hsize

theorem moves (h : w.Modest) (hmoves : w.Moves (Store.FileOf w) w') : w'.Modest := by
  refine h.later hmoves.toPrecedes (hmoves.home.trans h.home) fun q bytes hq => ?_
  rcases hmoves.tree.new_file hq with ⟨home, -, hhome, -⟩ | hsame
  · rw [h.home] at hhome
    cases hhome
  · exact h.size q bytes hsame

end Workspace.Modest

namespace Service

variable {s : Service} {others : Workspace → Workspace → Prop} {w₀ w : Workspace}
  {steps : List Step}

/-- Operations that edit nothing keep a workspace modest. -/
theorem Runs.modest_after (h : s.Runs others w₀ steps w) (hw : w.Sound) (hmodest : w.Modest)
    (hdir : ∀ n, .name n ∈ s.applier.backups.parts → n ∉ Store.files) {os : List Operation}
    (hedits : ∀ o ∈ os, o.edits = false) :
    ∃ steps', s.Runs others w₀ steps' (s.after os w) ∧ (s.after os w).Modest := by
  induction os generalizing steps w with
  | nil => exact ⟨steps, h, hmodest⟩
  | cons o os ih =>
    have hdoes := does_perform hw hmodest.representable hdir o
    have hmoves := hdoes.moves_files (hedits o List.mem_cons_self)
    exact ih (h.perform hmodest.representable o) (hdoes.sound hw) (hmodest.moves hmoves)
      fun p hp => hedits p (List.mem_cons_of_mem _ hp)

/-! ## A project of one file -/

/-- A project in `/w` that has one file, and a clock whose moments are all different. -/
def projectOf (name text : String) : Workspace :=
  { tree := { entries := [(["w"], .directory), (["w", name], .file text.toUTF8)] }
    tick := fun t => ⟨t.seconds, t.nanos + 1⟩ }

/-- A service for `/w` that confirms fixes of a confidence at once. -/
def confirming (threshold : Nat) : Service :=
  { root := ⟨"/w"⟩
    policy := .autoAbove threshold
    applier := { backups := ⟨"/w/.appmedic/backups"⟩ } }

theorem fresh_projectOf (name text : String) (threshold : Nat) :
    (confirming threshold).Fresh (projectOf name text) where
  ready :=
    { grounded := FileTree.grounded_of_entries (by simp [projectOf, FileTree.get?]) rfl (by simp [projectOf])
      unlinked := fun h => by simpa [projectOf] using FileTree.mem_entries_of_get? h
      store := fun home h => by cases h
      accepts := fun home h => by cases h
      takesBack := Disk.willing_default.takesBack }
  empty := rfl
  backups := by
    have hparts : (⟨"/w/.appmedic/backups"⟩ : Path).parts =
        [.root, .name "w", .name ".appmedic", .name "backups"] := by decide
    intro n hn
    rw [confirming, hparts] at hn
    simp only [List.mem_cons, reduceCtorEq, Path.Part.name.injEq, List.not_mem_nil, or_false,
      false_or] at hn
    rcases hn with rfl | rfl | rfl <;> decide

theorem modest_projectOf {name text : String} (h : text.toUTF8.size ≤ Data.countLimit) :
    (projectOf name text).Modest where
  home := rfl
  clock := by
    intro n
    have hseconds : ((projectOf name text).tick^[n] (projectOf name text).clock).seconds = 0 := by
      induction n with
      | zero => rfl
      | succ n ih =>
        rw [Function.iterate_succ_apply']
        exact ih
    rw [Time.InCalendar, hseconds]
    decide
  size := by
    intro q bytes hq
    rcases List.eq_nil_or_concat' q with rfl | ⟨dir, n, rfl⟩
    · simp at hq
    · have hmem := FileTree.mem_entries_of_get? hq
      simp only [projectOf, List.mem_cons, Prod.mk.injEq, List.not_mem_nil, or_false, reduceCtorEq,
        and_false, false_or, Entry.file.injEq] at hmem
      rw [hmem.2]
      exact h

/-- A component that changes its state directly. -/
def counter : Workspace :=
  projectOf "a.jsx" "class C extends Component \x7b\n  f() \x7b\n    this.state.count = 5;\n  \x7d\n\x7d\n"

theorem fresh_counter : (confirming 0).Fresh counter := fresh_projectOf ..

/-- The counter once it was scanned, and a fix of what was found was suggested and confirmed. -/
def scannedCounter : Workspace :=
  (confirming 0).after [.scan { root := ⟨"/w"⟩ } .web {} false, .suggestAll {}] counter

/-- The counter once that fix was applied. -/
def mendedCounter : Workspace := ((confirming 0).stepOf (.apply (Work.idOf 1)) scannedCounter).after

theorem runs_scannedCounter (others : Workspace → Workspace → Prop) :
    ∃ steps, (confirming 0).Runs others counter steps scannedCounter ∧ scannedCounter.Modest :=
  Runs.start.modest_after fresh_counter.sound (modest_projectOf (by decide)) fresh_counter.backups
    (by simp [Operation.edits])

end Service

end Mend
