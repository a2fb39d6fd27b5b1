import Mend.Patch.Applier
import Mend.Proofs.Patch.Backup

/-!
# What patching a file does

A fix is laid over a file whose bytes were copied before they were replaced, or the file stays as it
was (`Patch.Applier.exec_applyTo`): where the patched text fails its check, the copy is written back.
Only a disk that does not take the old bytes back leaves a file patched although applying has failed.
Nothing else is written but the copy and its description, and these have names that the file itself
cannot have (`Backup.not_mem_names`).
-/

namespace Mend

open Work (exec)

/-- What the next moment and all files fit: the years of the calendar, and sizes of 64 bits. -/
structure Workspace.Representable (w : Workspace) : Prop where
  clock : (w.tick w.clock).InCalendar
  size : ∀ q bytes, w.tree.get? q = some (.file bytes) → bytes.size ≤ Data.countLimit

/-- Where a place is as it was, nothing was written there. -/
theorem FileTree.Becomes.unwritten {changed made : Place → Prop} {t t' : FileTree} {q : Place}
    (h : Becomes (fun r => r = q ∨ changed r) made t t') (hq : t'.get? q = t.get? q) :
    Becomes changed made t t' where
  start_eq := h.start_eq
  directory := h.directory
  link := h.link
  file := h.file
  new_file := by
    intro r b hr
    rcases h.new_file hr with (rfl | hchanged) | hsame
    · exact Or.inr (hq ▸ hr)
    · exact Or.inl hchanged
    · exact Or.inr hsame
  new_directory := h.new_directory
  parent := h.parent

/-- A copy is not named like the file that was copied. -/
theorem Backup.not_mem_names {source : Path} {n : String} (h : source.fileName? = some n) (t : Time)
    (id : String) : n ∉ names source t id := by
  intro hn
  have hlength : n.toList.length < (stem source t id).length := by
    simp only [stem, h, Option.getD_some, List.length_append, List.length_cons]
    omega
  rcases toList_of_mem_names hn with heq | heq
  · simp [heq] at hlength
  · simp [heq] at hlength

namespace Patch

/-- The path that a file is known by in a tree. -/
def knownAs (t : FileTree) (file : Path) : Path :=
  match t.canonical file with
  | .ok p => p
  | .error _ => file

theorem exec_target (file : Path) (w : Workspace) :
    exec (target file) w = (.ok (knownAs w.tree file), w) := by
  rw [target, Work.exec_bind, Work.exec_tree, knownAs]
  simp only
  cases w.tree.canonical file <;> rfl

theorem knownAs_of_fileAt {t : FileTree} (ht : t.Grounded) {p : Path} {place : Place}
    (hp : t.FileAt p place) : knownAs t p = p := by
  rw [knownAs, hp.canonical ht]

/-- A file that is read as text has the bytes of the text. -/
theorem get?_of_readText {t : FileTree} (ht : t.Grounded) {p : Path} {place : Place}
    (hp : t.FileAt p place) {text : String} (h : t.readText p = .ok text) :
    t.get? place = some (.file text.toUTF8) := by
  obtain ⟨bytes, hbytes⟩ := hp.file
  simp only [FileTree.readText, hp.read ht hbytes, bind, Except.bind] at h
  split at h
  · next text' htext =>
    obtain rfl : text' = text := Except.ok.inj h
    unfold String.fromUTF8? at htext
    split at htext
    · obtain rfl := Option.some.inj htext
      exact hbytes
    · cases htext
  · cases h

/-- A file is written and nothing else changes, or the disk refuses and nothing changes at all. -/
theorem exec_write_file {w : Workspace} (hw : w.tree.Grounded) {p : Path} {place : Place}
    (hp : w.tree.FileAt p place) (bytes : ByteArray) :
    (∃ t, w.tree.write p bytes = .ok t ∧ w.Takes p bytes ∧
      exec (Work.write p bytes) w = (.ok (), { w with tree := t }) ∧
        FileTree.Becomes (· = place) Nowhere w.tree t ∧ t.get? place = some (.file bytes)) ∨
    ∃ refused cause, exec (Work.write p bytes) w = (.error (.io refused cause), w) ∧
      ¬ w.Takes p bytes := by
  rcases Work.exec_write p bytes w with ⟨t, hwrite, htakes, hexec⟩ | ⟨refused, cause, hexec, hnot⟩
  · obtain rfl := Except.ok.inj ((hp.write hw bytes).symm.trans hwrite)
    refine Or.inl ⟨_, hwrite, htakes, hexec, hp.becomes_set hw bytes, ?_⟩
    obtain ⟨dir, n, rfl⟩ := hp.exists_concat
    rw [FileTree.get?_set _ (by simp), if_pos rfl]
  · exact Or.inr ⟨refused, cause, hexec, hnot _ (hp.write hw bytes)⟩

/-- The copy of a file that has just been written is written back, or the disk does not take it. -/
theorem exec_restore_written {w : Workspace} (hw : w.tree.Grounded) {p : Path} {place : Place}
    (hp : w.tree.FileAt p place) {old new : ByteArray} (hold : w.tree.get? place = some (.file old))
    {t : FileTree} (hwrite : w.tree.write p new = .ok t) (htakes : w.Takes p new)
    (ht : FileTree.Becomes (· = place) Nowhere w.tree t) {copy : Path}
    (hcopy : Backup.Kept { w with tree := t } copy old) :
    (∃ t', exec (Backup.restore copy p) { w with tree := t } = (.ok (), { w with tree := t' }) ∧
      FileTree.Becomes (· = place) Nowhere t t' ∧ t'.get? place = some (.file old)) ∨
    ∃ e, exec (Backup.restore copy p) { w with tree := t } = (.error e, { w with tree := t }) ∧
      ¬ w.disk.TakesBack := by
  rw [hcopy.exec_restore]
  rcases exec_write_file (w := { w with tree := t }) (hw.becomes ht) (hp.becomes ht) old with
    ⟨t', -, -, hrestore, ht', hback⟩ | ⟨refused, cause, hrefused, hnot⟩
  · exact Or.inl ⟨t', hrestore, ht', hback⟩
  · exact Or.inr ⟨_, hrefused, fun hback => hnot (hback _ _ _ _ _ _ (hp.read hw hold) hwrite htakes)⟩

/-- The bytes of a file at a place were replaced, and the next copy in a directory holds the old
ones. -/
structure Laid (w : Workspace) (dir source : Path) (place : Place) (copy : Path)
    (old new : ByteArray) (w' : Workspace) : Prop where
  tree : FileTree.Becomes (fun q => q = place ∨ Backup.NextOf w source w'.tree dir q)
    (Backup.Along dir) w.tree w'.tree
  before : w.tree.get? place = some (.file old)
  after : w'.tree.get? place = some (.file new)
  kept : ∃ spot n, copy = dir.join n ∧
    n = Backup.name source (w.tick w.clock) (Work.idOf w.serial) ∧
    Backup.KeptAt w' dir spot n old

/-- The names of a copy are not the name of the file that was copied. -/
theorem append_ne_of_fileAt {t : FileTree} {p : Path} {place : Place} (hp : t.FileAt p place)
    (spot : Place) {n : String} {time : Time} {id : String} (hn : n ∈ Backup.names p time id) :
    spot ++ [n] ≠ place := by
  rintro rfl
  refine Backup.not_mem_names ?_ _ _ hn
  rw [hp.path_eq]
  exact Path.fileName?_ofPlace hp.proper

/-- The file is written after the copy was made. -/
theorem becomes_over {w : Workspace} {dir source : Path} {place : Place} {t t' : FileTree}
    (ht : FileTree.Becomes (Backup.NextOf w source t dir) (Backup.Along dir) w.tree t)
    (ht' : FileTree.Becomes (· = place) Nowhere t t') :
    FileTree.Becomes (fun q => q = place ∨ Backup.NextOf w source t' dir q) (Backup.Along dir)
      w.tree t' :=
  (ht.mono (fun _ hq => Or.inr (hq.becomes ht')) fun _ hq => hq).trans
    (ht'.mono (fun _ hq => Or.inl hq) fun _ hq => hq.elim)

/-- Where there was nothing, and no copy has the name, there is nothing once a fix was laid. -/
theorem Laid.get?_eq_none {w w' : Workspace} {dir source : Path} {place r : Place} {copy : Path}
    {old new : ByteArray} {n : String} (h : Laid w dir source place copy old new w')
    (hnone : w.tree.get? (r ++ [n]) = none) (hplace : r ++ [n] ≠ place) (hn : ¬ Taken w' n)
    (hdir : .name n ∉ dir.parts) : w'.tree.get? (r ++ [n]) = none := by
  rcases hentry : w'.tree.get? (r ++ [n]) with - | bytes | - | p
  · rfl
  · rcases h.tree.new_file hentry with (hsame | ⟨q, m, hm, -, hq⟩) | hsame
    · exact absurd hsame hplace
    · obtain ⟨-, rfl⟩ : r = q ∧ n = m := by simpa using hq
      obtain ⟨spot, m, -, rfl, hkept⟩ := h.kept
      rw [Backup.names, List.mem_cons, List.mem_singleton] at hm
      rcases hm with rfl | rfl
      · exact absurd hkept.taken hn
      · exact absurd hkept.taken_description hn
    · cases hnone.symm.trans hsame
  · rcases h.tree.new_directory hentry with ⟨q, m, hm, hq⟩ | hsame
    · obtain ⟨-, rfl⟩ : r = q ∧ n = m := by simpa using hq
      exact absurd hm hdir
    · cases hnone.symm.trans hsame
  · cases hnone.symm.trans (h.tree.link.mp hentry)

/-- A fix is laid over the bytes of a file, of which a copy is kept, or the file stays as it is. The new
bytes are those of the patched text. Or the patched text fails its check and stays, with the copy of
the old one, because the disk does not take that back. -/
theorem Applier.exec_applyTo (a : Applier) {w : Workspace} (hw : w.tree.Grounded)
    (hrep : w.Representable) {p : Path} {place : Place} (hp : w.tree.FileAt p place)
    (hlink : Backup.Unlinked w p) (f : Fix) :
    ∃ r w', exec (a.applyTo p f) w = (r, w') ∧ w.Precedes w' ∧ w'.store = w.store ∧
      ((∃ e, r = .error e ∧ FileTree.Becomes (Backup.NextOf w p w'.tree a.backups)
          (Backup.Along a.backups) w.tree w'.tree) ∨
        (∃ outcome old new, r = .ok outcome ∧
          Laid w a.backups p place outcome.backup.path old new w' ∧
          ∀ text, w.tree.readText p = .ok text →
            new = (String.ofList (patched a.locator text.toList f (languageOf p)).1).toUTF8) ∨
        ¬ w.disk.TakesBack ∧ ∃ e copy old new, r = .error e ∧
          Laid w a.backups p place copy old new w') := by
  rw [applyTo, Work.exec_bind, Work.readText, Work.exec_reading]
  cases htext : w.tree.readText p with
  | error e => exact ⟨_, w, rfl, .refl w, rfl, Or.inl ⟨_, rfl, .refl _ _ _⟩⟩
  | ok old =>
    have hold := get?_of_readText hw hp htext
    simp only [Except.mapError]
    obtain ⟨r₁, w₁, hcreate, hafter, ht₁, hstore, hkept₁⟩ :=
      Backup.exec_create hw hlink a.backups old.toUTF8
    rw [Work.exec_bind, hcreate]
    cases r₁ with
    | error e => exact ⟨_, w₁, rfl, hafter, hstore, Or.inl ⟨_, rfl, ht₁⟩⟩
    | ok backup =>
      obtain ⟨hpath, spot, hkept⟩ := hkept₁ backup rfl hrep.clock (hrep.size _ _ hold)
      have hp₁ := hp.becomes ht₁
      have hw₁ := hw.becomes ht₁
      generalize hresult : patched a.locator old.toList f (languageOf p) = result
      obtain ⟨new, placement⟩ := result
      have hpatched : ∀ text : String, (.ok old : Except IoError String) = .ok text →
          (String.ofList new).toUTF8 =
            (String.ofList (patched a.locator text.toList f (languageOf p)).1).toUTF8 := by
        rintro _ ⟨⟩
        rw [hresult]
      simp only
      rcases exec_write_file hw₁ hp₁ (String.ofList new).toUTF8 with
        ⟨t₂, hset, htakes, hwrite, ht₂, hnew⟩ | ⟨refused, cause, hrefused, -⟩
      case inr =>
        rw [Work.exec_bind, hrefused]
        exact ⟨_, w₁, rfl, hafter, hstore, Or.inl ⟨_, rfl, ht₁⟩⟩
      rw [Work.exec_bind, hwrite]
      have hafter' : ∀ t : FileTree, w.Precedes { w₁ with tree := t } :=
        fun t => ⟨hafter.serial, hafter.tick, hafter.disk, hafter.clock⟩
      have hkept₂ : Backup.KeptAt { w₁ with tree := t₂ } a.backups spot _ old.toUTF8 :=
        hkept.mono (fun h => h) ht₂ (append_ne_of_fileAt hp spot List.mem_cons_self)
          (append_ne_of_fileAt hp spot (List.mem_cons_of_mem _ List.mem_cons_self))
      have hlaid : Laid w a.backups p place backup.path old.toUTF8 _ { w₁ with tree := t₂ } :=
        ⟨becomes_over ht₁ ht₂, hold, hnew, spot, _, hpath, rfl, hkept₂⟩
      simp only
      split
      · split
        · exact ⟨_, _, rfl, hafter' t₂, hstore, Or.inr (Or.inl ⟨_, _, _, rfl, hlaid, hpatched⟩)⟩
        · -- the check failed, and the copy is written back
          have hcopy : Backup.Kept { w₁ with tree := t₂ } backup.path old.toUTF8 :=
            ⟨_, _, _, hpath, hkept₂⟩
          have hold₁ : w₁.tree.get? place = some (.file old.toUTF8) := by
            refine ht₁.file_eq (fun hq => ?_) hold
            obtain ⟨r, n, hn, -, hq⟩ := hq
            exact append_ne_of_fileAt hp r hn hq.symm
          rw [Work.exec_bind]
          rcases exec_restore_written hw₁ hp₁ hold₁ hset htakes ht₂ hcopy with
            ⟨t₃, hrestore, ht₃, hback⟩ | ⟨e, hrefused, hnot⟩
          · rw [hrestore]
            exact ⟨_, _, rfl, hafter' t₃, hstore, Or.inl ⟨_, rfl,
              (becomes_over ht₁ (ht₂.trans ht₃)).unwritten (hback.trans hold.symm)⟩⟩
          · rw [hrefused]
            exact ⟨_, _, rfl, hafter' t₂, hstore, Or.inr (Or.inr ⟨hafter.disk ▸ hnot, _, _, _, _,
              rfl, hlaid⟩)⟩
      · exact ⟨_, _, rfl, hafter' t₂, hstore, Or.inr (Or.inl ⟨_, _, _, rfl, hlaid, hpatched⟩)⟩

/-- A fix is applied where the file is a text, a copy can be made, the disk never refuses and the
patched text passes the check. After the copy nothing is written but the patched text. -/
theorem Applier.exec_applyTo_ok (a : Applier) {w : Workspace} (hw : w.tree.Grounded)
    (hdisk : w.disk.Willing) {p : Path} {place : Place} (hp : w.tree.FileAt p place)
    (hlink : Backup.Unlinked w p) {old : String} (htext : w.tree.readText p = .ok old) {b : Backup}
    {w₁ : Workspace} (hb : exec (Backup.create a.backups p old.toUTF8) w = (.ok b, w₁)) (f : Fix)
    (hcheck : a.validate = false ∨ ∃ u, Text.sanityCheck (languageOf p) old.toList
      (patched a.locator old.toList f (languageOf p)).1 = .ok u) :
    ∃ outcome, exec (a.applyTo p f) w = (.ok outcome, { w₁ with
      tree := w₁.tree.set place (.file
        (String.ofList (patched a.locator old.toList f (languageOf p)).1).toUTF8) }) := by
  obtain ⟨r, w₁', hcreate, hafter, ht₁, -⟩ := Backup.exec_create hw hlink a.backups old.toUTF8
  obtain ⟨rfl, rfl⟩ : r = .ok b ∧ w₁' = w₁ := by simpa using hcreate.symm.trans hb
  have hwrite := Work.exec_write_ok ((hp.becomes ht₁).write (hw.becomes ht₁)
    (String.ofList (patched a.locator old.toList f (languageOf p)).1).toUTF8)
    ((hafter.disk ▸ hdisk : w₁'.disk.Willing).takes _ _)
  rw [applyTo, Work.exec_bind, Work.readText, Work.exec_reading, htext]
  simp only [Except.mapError]
  rw [Work.exec_bind, hb]
  simp only
  rw [Work.exec_bind, hwrite]
  simp only
  rcases hcheck with hoff | ⟨u, hu⟩
  · simp [hoff]
  · simp only [hu]
    split <;> exact ⟨_, rfl⟩

end Patch

/-! ## Faults of the check -/

namespace Work

variable {α β : Type} {x : Work α} {f : α → Work β}

/-- The operation fails only where the files do. -/
def FailsOnFiles (x : Work α) : Prop :=
  ∀ w e, (exec x w).1 = .error e → ∃ p cause, e = .io p cause

namespace FailsOnFiles

theorem pure (a : α) : FailsOnFiles (pure a : Work α) := fun _ _ h => by cases h

theorem bind (hx : FailsOnFiles x) (hf : ∀ a, FailsOnFiles (f a)) : FailsOnFiles (x >>= f) := by
  intro w e he
  rw [exec_bind] at he
  rcases hexec : exec x w with ⟨r, w'⟩
  rw [hexec] at he
  cases r with
  | error e' => exact hx w e (by rw [hexec]; simpa using he)
  | ok a => exact hf a w' e he

theorem now : FailsOnFiles now := fun _ _ h => by cases h

theorem freshId : FailsOnFiles freshId := fun _ _ h => by cases h

theorem changing (p : Path) (g : FileTree → Except IoError FileTree) :
    FailsOnFiles (changing p g) := by
  intro w e he
  rw [exec_changing] at he
  split at he
  · cases he
  · obtain rfl := Except.error.inj he
    exact ⟨_, _, rfl⟩

theorem write (p : Path) (bytes : ByteArray) : FailsOnFiles (write p bytes) := by
  intro w e he
  rcases exec_write p bytes w with ⟨t, -, -, hexec⟩ | ⟨place, cause, hexec, -⟩
  · rw [hexec] at he
    cases he
  · rw [hexec] at he
    obtain rfl := Except.error.inj he
    exact ⟨_, _, rfl⟩

end FailsOnFiles

end Work

open Work (FailsOnFiles)

theorem Backup.failsOnFiles_create (dir source : Path) (bytes : ByteArray) :
    FailsOnFiles (create dir source bytes) := by
  refine .bind (.changing _ _) fun _ => .bind .now fun now => .bind .freshId fun id => ?_
  exact .bind (.write _ _) fun _ => .bind (.write _ _) fun _ => .pure _

namespace Patch

/-- A file that can be read is patched without a fault of the check, if the patched text passes. -/
theorem Applier.apply_ne_validation (a : Applier) {w : Workspace} {f : Fix} {text : String}
    (htext : w.tree.readText (knownAs w.tree f.file) = .ok text)
    (hcheck : Text.sanityCheck (languageOf (knownAs w.tree f.file)) text.toList
      (patched a.locator text.toList f (languageOf (knownAs w.tree f.file))).1 = .ok ())
    (file : Path) (reason : String) : (exec (a.apply f) w).1 ≠ .error (.validation file reason) := by
  intro h
  rw [apply, Work.exec_bind, exec_target] at h
  simp only [applyTo] at h
  rw [Work.exec_bind, Work.readText, Work.exec_reading, htext] at h
  simp only [Except.mapError] at h
  generalize patched a.locator text.toList f (languageOf (knownAs w.tree f.file)) = result at h hcheck
  simp only [hcheck] at h
  obtain ⟨p, cause, hfault⟩ := (show FailsOnFiles _ from by
    refine .bind (Backup.failsOnFiles_create _ _ _) fun backup => .bind (.write _ _) fun _ => ?_
    split <;> exact .pure _) w _ h
  cases hfault

end Patch

end Mend
