import Mend.Proofs.Patch.Backup

/-!
# Records that are written

A record takes the place of the one with its id, and nothing else changes (`Records.mem_put`). Where
the store is in memory, or its files can be written (`Workspace.Ready`), every change of the records
succeeds and edits no file but those of the store.
-/

namespace Mend

namespace Records

variable {α : Type} {key : α → String}

/-! ## Records and their keys -/

theorem mem_of_mem_put {a b : α} : ∀ {l : List α}, b ∈ put key a l → b = a ∨ b ∈ l
  | [], h => by simpa [put] using h
  | c :: l, h => by
    rw [put] at h
    split at h
    · rcases List.mem_cons.mp h with h | h
      · exact Or.inl h
      · exact Or.inr (List.mem_cons_of_mem _ h)
    · rcases List.mem_cons.mp h with h | h
      · exact Or.inr (h ▸ List.mem_cons_self)
      · exact (mem_of_mem_put h).imp_right (List.mem_cons_of_mem _)

theorem mem_put_self (a : α) : ∀ l : List α, a ∈ put key a l
  | [] => by simp [put]
  | c :: l => by
    rw [put]
    split
    · exact List.mem_cons_self
    · exact List.mem_cons_of_mem _ (mem_put_self a l)

theorem put_of_not_mem {a : α} : ∀ {l : List α}, key a ∉ l.map key → put key a l = l ++ [a]
  | [], _ => rfl
  | c :: l, h => by
    rw [List.map_cons, List.mem_cons, not_or] at h
    rw [put, if_neg (Ne.symm h.1), put_of_not_mem h.2, List.cons_append]

theorem map_put_of_mem {a : α} : ∀ {l : List α}, key a ∈ l.map key → (put key a l).map key = l.map key
  | [], h => by simp at h
  | c :: l, h => by
    rw [put]
    split
    · next hc => simp [hc]
    · next hc =>
      rw [List.map_cons, List.mem_cons, or_iff_right (Ne.symm hc)] at h
      rw [List.map_cons, map_put_of_mem h, List.map_cons]

theorem nodup_put (a : α) {l : List α} (h : (l.map key).Nodup) : ((put key a l).map key).Nodup := by
  by_cases ha : key a ∈ l.map key
  · rwa [map_put_of_mem ha]
  · rw [put_of_not_mem ha, List.map_append, List.nodup_append]
    refine ⟨h, by simp, ?_⟩
    rintro x hx y hy rfl
    rw [List.map_singleton, List.mem_singleton] at hy
    exact ha (hy ▸ hx)

theorem mem_put {a b : α} {l : List α} (h : (l.map key).Nodup) :
    b ∈ put key a l ↔ b = a ∨ (b ∈ l ∧ key b ≠ key a) := by
  induction l with
  | nil => simp [put]
  | cons c l ih =>
    rw [List.map_cons, List.nodup_cons] at h
    rw [put]
    split
    · next hc =>
      have hother : b ∈ l → key b ≠ key a := by
        intro hb hkey
        exact h.1 (hc.trans hkey.symm ▸ List.mem_map_of_mem hb)
      rw [List.mem_cons, List.mem_cons]
      constructor
      · exact fun hb => hb.imp_right fun hb => ⟨Or.inr hb, hother hb⟩
      · rintro (hb | ⟨rfl | hb, hkey⟩)
        · exact Or.inl hb
        · exact absurd hc hkey
        · exact Or.inr hb
    · next hc =>
      rw [List.mem_cons, ih h.2, List.mem_cons]
      constructor
      · rintro (rfl | hb | ⟨hb, hkey⟩)
        · exact Or.inr ⟨Or.inl rfl, hc⟩
        · exact Or.inl hb
        · exact Or.inr ⟨Or.inr hb, hkey⟩
      · rintro (hb | ⟨rfl | hb, hkey⟩)
        · exact Or.inr (Or.inl hb)
        · exact Or.inl rfl
        · exact Or.inr (Or.inr ⟨hb, hkey⟩)

theorem mem_saveIssues {r : Records} {issues : List Issue} {i : Issue}
    (h : i ∈ (r.saveIssues issues).issues) : i ∈ issues ∨ i ∈ r.issues := by
  unfold saveIssues at h
  simp only at h
  induction issues generalizing r with
  | nil => exact Or.inr h
  | cons j issues ih =>
    rcases ih (r := { r with issues := put Issue.id j r.issues }) h with h | h
    · exact Or.inl (List.mem_cons_of_mem _ h)
    · rcases @mem_of_mem_put _ Issue.id _ _ _ h with rfl | h
      · exact Or.inl List.mem_cons_self
      · exact Or.inr h

theorem fix?_eq_some {r : Records} {id : String} {f : Fix} (h : r.fix? id = some f) :
    f ∈ r.fixes ∧ f.id = id :=
  ⟨List.mem_of_find?_eq_some h, by simpa using List.find?_some h⟩

/-- A fix with the id of one that is kept takes its place. -/
theorem updateFix_of_mem {r : Records} {f f' : Fix} (hf : f ∈ r.fixes) (hid : f'.id = f.id) :
    r.updateFix f' = .ok (r.saveFix f') := by
  refine if_pos ?_
  rw [fix?, List.find?_isSome]
  exact ⟨f, hf, by simp [hid]⟩

end Records

/-! ## Stores that can be written -/

/-- The disk lets the files of a store be written. -/
def Store.Accepts (d : Disk) (home : Path) : Prop :=
  ∀ file ∈ Store.files, ∀ now t bytes, d.refuses now t (home.join file) bytes = none

/-- The workspace is steady, and what the stores do succeeds. Each file of the store of records is a
file or missing, and the disk lets it be written. The store of copies can write a copy back over the
file that has just been patched. Any other write may be refused by the disk. -/
structure Workspace.Ready (w : Workspace) : Prop extends w.Steady where
  store : ∀ home, w.store.home = some home → ∃ place, w.tree.Opens home place ∧
    ∀ file ∈ Store.files, ∀ e, w.tree.get? (place ++ [file]) = some e → ∃ b, e = .file b
  accepts : ∀ home, w.store.home = some home → Store.Accepts w.disk home
  takesBack : w.disk.TakesBack

theorem Workspace.Ready.becomes {changed : Place → Prop} {w w' : Workspace} (hw : w.Ready)
    (ht : FileTree.Becomes changed Free w.tree w'.tree) (hdisk : w'.disk = w.disk)
    (hstore : w'.store.home = w.store.home) : w'.Ready where
  accepts home hhome := hdisk ▸ hw.accepts home (hstore ▸ hhome)
  takesBack := hdisk ▸ hw.takesBack
  toSteady := ht.steady hw.toSteady
  store := by
    intro home hhome
    rw [hstore] at hhome
    obtain ⟨place, hopens, hfiles⟩ := hw.store home hhome
    refine ⟨place, hopens.becomes ht, fun file hfile e he => ?_⟩
    cases e with
    | file b => exact ⟨b, rfl⟩
    | link p =>
      obtain ⟨b, hb⟩ := hfiles file hfile _ (ht.link.mp he)
      cases hb
    | directory =>
      rcases ht.new_directory he with ⟨r, n, hq, hn⟩ | hbefore
      · obtain ⟨-, rfl⟩ : place = r ∧ file = n := by simpa using hq
        exact absurd hfile hn
      · obtain ⟨b, hb⟩ := hfiles file hfile _ hbefore
        cases hb

theorem Workspace.Moves.ready {changed : Place → Prop} {w w' : Workspace} (h : w.Moves changed w')
    (hw : w.Ready) : w'.Ready :=
  hw.becomes h.tree h.disk h.home

namespace Store

open Work (exec)

/-- The place of a file that the store writes. -/
def FileOf (w : Workspace) (q : Place) : Prop :=
  ∃ home place, w.store.home = some home ∧ w.tree.Opens home place ∧
    ∃ file ∈ files, q = place ++ [file]

theorem FileOf.mem_files {w : Workspace} {r : Place} {n : String} (h : FileOf w (r ++ [n])) :
    n ∈ files := by
  obtain ⟨-, place, -, -, file, hfile, hq⟩ := h
  obtain ⟨-, rfl⟩ : r = place ∧ n = file := by simpa using hq
  exact hfile

/-- The files of the store stay where they are. -/
theorem fileOf_of_moves {changed : Place → Prop} {w w' : Workspace} (hw : w.Ready)
    (h : w.Moves changed w') {q : Place} (hq : FileOf w' q) : FileOf w q := by
  obtain ⟨home, place, hhome, hopens, file, hfile, rfl⟩ := hq
  rw [h.home] at hhome
  obtain ⟨place', hopens', -⟩ := hw.store home hhome
  obtain rfl := (hopens'.becomes h.tree).unique hopens
  exact ⟨home, place', hhome, hopens', file, hfile, rfl⟩

/-- A change of the store's files after another change. -/
theorem moves_then {changed : Place → Prop} {w w' w'' : Workspace}
    (hw : w.Ready) (h : w.Moves changed w') (h' : w'.Moves (FileOf w') w'') :
    w.Moves (fun q => changed q ∨ FileOf w q) w'' :=
  (h.mono fun _ hq => Or.inl hq).trans (h'.mono fun _ hq => Or.inr (fileOf_of_moves hw h hq))

/-- The operation succeeds, changes no file but those of the store, and leaves the records as
described. -/
def Stores {α : Type} (w : Workspace) (x : Work α) (a : α) (r : Records) : Prop :=
  ∃ w', exec x w = (.ok a, w') ∧ w.Moves (FileOf w) w' ∧ w'.store.records = r

@[simp] theorem exec_current (w : Workspace) : exec current w = (.ok w.store.records, w) := rfl

@[simp] theorem exec_setRecords (r : Records) (w : Workspace) :
    exec (setRecords r) w = (.ok (), { w with store := { w.store with records := r } }) := rfl

theorem moves_setRecords (changed : Place → Prop) (r : Records) (w : Workspace) :
    w.Moves changed { w with store := { w.store with records := r } } :=
  ⟨⟨le_rfl, rfl, rfl, 0, by simp, rfl⟩, .refl _ _ _, rfl⟩

namespace Stores

variable {α β : Type} {w : Workspace} {x : Work α} {f : α → Work β} {a : α} {b : β}
  {r r' : Records}

theorem pure (a : α) : Stores w (pure a) a w.store.records :=
  ⟨w, rfl, .refl _ _, rfl⟩

theorem now : Stores w Work.now (w.tick w.clock) w.store.records :=
  ⟨_, rfl, moves_now _ w, rfl⟩

/-- One change of the records after another. -/
theorem bind (hw : w.Ready) (hx : Stores w x a r)
    (hf : ∀ w', w'.Ready → w'.store.records = r → Stores w' (f a) b r') :
    Stores w (x >>= f) b r' := by
  obtain ⟨w', hexec, hmoves, hrecords⟩ := hx
  obtain ⟨w'', hexec', hmoves', hrecords'⟩ := hf w' (hmoves.ready hw) hrecords
  exact ⟨w'', by rw [Work.exec_bind, hexec]; exact hexec',
    hmoves.trans (hmoves'.mono fun _ hq => fileOf_of_moves hw hmoves hq), hrecords'⟩

end Stores

/-- Bytes are put into a file of the store. -/
theorem moves_files {w : Workspace} {home : Path} {place : Place} {file : String}
    (hhome : w.store.home = some home) (hopens : w.tree.Opens home place) (hfile : file ∈ files)
    (hplain : ∀ e, w.tree.get? (place ++ [file]) = some e → ∃ b, e = .file b) (bytes : ByteArray) :
    w.Moves (FileOf w) { w with tree := w.tree.set (place ++ [file]) (.file bytes) } := by
  refine moves_tree ((FileTree.becomes_set_file hopens.directory ?_ ?_ bytes).mono ?_
    fun _ h => h.elim)
  · intro he
    obtain ⟨b, hb⟩ := hplain _ he
    cases hb
  · intro p he
    obtain ⟨b, hb⟩ := hplain _ he
    cases hb
  · rintro _ rfl
    exact ⟨home, place, hhome, hopens, file, hfile, rfl⟩

theorem stores_persist {w : Workspace} (hw : w.Ready) {file : String} (hfile : file ∈ files)
    (items : List Data) : Stores w (persist file items) () w.store.records := by
  rw [Stores, persist, Work.exec_bind, Work.exec_get]
  simp only
  cases hhome : w.store.home with
  | none => exact ⟨w, rfl, .refl _ _, rfl⟩
  | some home =>
    obtain ⟨place, hopens, hplain⟩ := hw.store home hhome
    have hwrite := hopens.write (proper_of_mem_files hfile) (by
      intro he
      obtain ⟨b, hb⟩ := hplain file hfile _ he
      cases hb) (Json.pretty (.list items)).toUTF8
    exact ⟨_, Work.exec_write_ok hwrite (hw.accepts home hhome file hfile _ _ _),
      moves_files hhome hopens hfile (hplain file hfile) _, rfl⟩

theorem stores_setRecords (r : Records) (w : Workspace) : Stores w (setRecords r) () r :=
  ⟨_, rfl, moves_setRecords _ r w, rfl⟩

/-- Records are changed in memory, and then a file is written. -/
theorem Stores.of_setRecords {w : Workspace} (hw : w.Ready) (r : Records) {x : Work Unit}
    (hx : ∀ w' : Workspace, w'.Ready → Stores w' x () w'.store.records) :
    Stores w (do setRecords r; x) () r :=
  .bind hw (stores_setRecords r w) fun w' hw' hr => by rw [← hr]; exact hx w' hw'

theorem stores_persistFixes {w : Workspace} (hw : w.Ready) :
    Stores w persistFixes () w.store.records := by
  rw [Stores, persistFixes, Work.exec_bind, exec_current]
  exact stores_persist hw (by simp [files]) _

theorem stores_persistIssues {w : Workspace} (hw : w.Ready) :
    Stores w persistIssues () w.store.records := by
  rw [Stores, persistIssues, Work.exec_bind, exec_current]
  exact stores_persist hw (by simp [files]) _

theorem stores_saveFix {w : Workspace} (hw : w.Ready) (f : Fix) :
    Stores w (saveFix f) () (w.store.records.saveFix f) := by
  rw [Stores, saveFix, Work.exec_bind, exec_current]
  exact Stores.of_setRecords hw _ fun _ => stores_persistFixes

theorem stores_updateFix {w : Workspace} (hw : w.Ready) {f : Fix}
    (hf : f ∈ w.store.records.fixes) (f' : Fix) (hid : f'.id = f.id) :
    Stores w (updateFix f') () (w.store.records.saveFix f') := by
  rw [Stores, updateFix, Work.exec_bind, exec_current]
  simp only
  rw [Work.exec_bind, Records.updateFix_of_mem hf hid, Work.exec_ofExcept]
  exact Stores.of_setRecords hw _ fun _ => stores_persistFixes

/-- A fix is replaced and given back. -/
theorem stores_updateFix_pure {w : Workspace} (hw : w.Ready) {f : Fix}
    (hf : f ∈ w.store.records.fixes) (f' : Fix) (hid : f'.id = f.id) :
    Stores w (do updateFix f'; pure f') f' (w.store.records.saveFix f') :=
  .bind hw (stores_updateFix hw hf f' hid) fun _ _ hrecords => hrecords ▸ Stores.pure f'

theorem stores_saveIssues {w : Workspace} (hw : w.Ready) (issues : List Issue) :
    Stores w (saveIssues issues) () (w.store.records.saveIssues issues) := by
  rw [Stores, saveIssues, Work.exec_bind, exec_current]
  exact Stores.of_setRecords hw _ fun _ => stores_persistIssues

theorem stores_append {w : Workspace} (hw : w.Ready) (a : Application) :
    Stores w (append a) () (w.store.records.append a) := by
  have hfile : applicationsFile ∈ files := by simp [files]
  rw [Stores, append, Work.exec_bind, Work.exec_get]
  simp only
  cases hhome : w.store.home with
  | none => exact ⟨_, rfl, moves_setRecords _ _ w, rfl⟩
  | some home =>
    obtain ⟨place, hopens, hplain⟩ := hw.store home hhome
    obtain ⟨all, hall⟩ := hopens.append (proper_of_mem_files hfile) (hplain _ hfile)
      (Json.compact a.toData ++ "\n").toUTF8
    have hmoves := moves_files hhome hopens hfile (hplain _ hfile) all
    simp only
    rw [Work.exec_bind, Work.exec_changing, hall]
    exact ⟨_, rfl, hmoves.trans (moves_setRecords _ _ _), rfl⟩

/-! ## Stores in memory -/

theorem exec_persist_memory {w : Workspace} (hhome : w.store.home = none) (file : String)
    (items : List Data) : exec (persist file items) w = (.ok (), w) := by
  rw [persist, Work.exec_bind, Work.exec_get]
  simp only [hhome]
  rfl

theorem exec_persistIssues_memory {w : Workspace} (hhome : w.store.home = none) :
    exec persistIssues w = (.ok (), w) := by
  rw [persistIssues, Work.exec_bind, exec_current]
  exact exec_persist_memory hhome _ _

theorem exec_persistFixes_memory {w : Workspace} (hhome : w.store.home = none) :
    exec persistFixes w = (.ok (), w) := by
  rw [persistFixes, Work.exec_bind, exec_current]
  exact exec_persist_memory hhome _ _

theorem exec_saveFix_memory {w : Workspace} (hhome : w.store.home = none) (f : Fix) :
    exec (saveFix f) w =
      (.ok (), { w with store := { w.store with records := w.store.records.saveFix f } }) := by
  rw [saveFix, Work.exec_bind, exec_current]
  simp only
  rw [Work.exec_bind, exec_setRecords]
  exact exec_persistFixes_memory hhome

end Store

end Mend
