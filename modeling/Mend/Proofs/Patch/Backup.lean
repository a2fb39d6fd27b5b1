import Mend.Proofs.Data.Json
import Mend.Proofs.FileTree
import Mend.Proofs.Patch.BackupName

/-!
# Copies are kept

What operations do to a workspace is told by the places at which they write (`Workspace.Moves`); all
else stays as it is. Where the clock moves on, the next copy is never written at the place of an
earlier one. So a copy whose description can be read (`Backup.Kept`) can be relied on: nothing writes
over it (`Kept.moves`), and restoring it gives the bytes that were copied (`Kept.verifiedBytes`). A
copy that was made without a fault is such a copy (`exec_create`).
-/

namespace Mend

/-! ## What operations leave alone -/

/-- The name of the place is none of a file that the store writes. -/
def Free (q : Place) : Prop := ∃ r n, q = r ++ [n] ∧ n ∉ Store.files

/-- Paths lead to where they should, and no link is named like a copy. -/
structure Workspace.Steady (w : Workspace) : Prop where
  grounded : w.tree.Grounded
  unlinked : ∀ {r n p}, w.tree.get? (r ++ [n]) = some (.link p) → ¬ Backup.IsName n

/-- What comes of operations that write at some places only. -/
structure Workspace.Moves (changed : Place → Prop) (w w' : Workspace) : Prop
    extends w.Precedes w' where
  tree : FileTree.Becomes changed Free w.tree w'.tree
  home : w'.store.home = w.store.home

/-- No place. -/
def Nowhere (_ : Place) : Prop := False

namespace Workspace.Moves

variable {changed : Place → Prop} {w w' w'' : Workspace}

theorem refl (changed : Place → Prop) (w : Workspace) : Moves changed w w :=
  ⟨.refl w, .refl _ _ _, rfl⟩

theorem mono {changed' : Place → Prop} (h : Moves changed w w')
    (hchanged : ∀ q, changed q → changed' q) : Moves changed' w w' :=
  ⟨h.toPrecedes, h.tree.mono hchanged fun _ hq => hq, h.home⟩

theorem trans (h : Moves changed w w') (h' : Moves changed w' w'') : Moves changed w w'' :=
  ⟨h.toPrecedes.trans h'.toPrecedes, h.tree.trans h'.tree, h'.home.trans h.home⟩

end Workspace.Moves

theorem FileTree.Becomes.steady {changed made : Place → Prop} {w w' : Workspace}
    (h : Becomes changed made w.tree w'.tree) (hw : w.Steady) : w'.Steady where
  grounded := hw.grounded.becomes h
  unlinked hlink := hw.unlinked (h.link.mp hlink)

/-- Only the clock moves on. -/
theorem moves_now (changed : Place → Prop) (w : Workspace) :
    w.Moves changed { w with clock := w.tick w.clock } :=
  ⟨⟨le_rfl, rfl, rfl, 1, by simp, rfl⟩, .refl _ _ _, rfl⟩

/-- The clock moves on as an id is given out. -/
theorem moves_now_freshId (changed : Place → Prop) (w : Workspace) :
    w.Moves changed { w with clock := w.tick w.clock, serial := w.serial + 1 } :=
  ⟨⟨Nat.le_succ _, rfl, rfl, 1, by simp, rfl⟩, .refl _ _ _, rfl⟩

/-- Only the tree changes. -/
theorem moves_tree {changed : Place → Prop} {w : Workspace} {t : FileTree}
    (h : FileTree.Becomes changed Free w.tree t) : w.Moves changed { w with tree := t } :=
  ⟨⟨le_rfl, rfl, rfl, 0, by simp, rfl⟩, h, rfl⟩

/-- A file with a name that is not linked anywhere is written in a directory. -/
theorem FileTree.becomes_write {t t' : FileTree} {dir : Path} {n : String} (hn : Path.Proper n)
    (hlink : ∀ r p, t.get? (r ++ [n]) ≠ some (.link p)) {bytes : ByteArray}
    (h : t.write (dir.join n) bytes = .ok t') :
    ∃ place, Opens t' dir place ∧ t'.get? (place ++ [n]) = some (.file bytes) ∧
      Becomes (· = place ++ [n]) Nowhere t t' := by
  obtain ⟨place, hopens, hdir, rfl⟩ := write_join_eq_ok hn h
  have hbecomes := becomes_set_file hopens.directory hdir (hlink place) bytes
  exact ⟨place, hopens.becomes hbecomes, by rw [get?_set _ (by simp), if_pos rfl], hbecomes⟩

namespace Backup

/-! ## Restoring -/

/-- To read a copy changes nothing. -/
theorem exec_verifiedBytes (w : Workspace) (backup : Path) :
    ∃ r, Work.exec (verifiedBytes backup) w = (r, w) := by
  rw [verifiedBytes, Work.exec_bind, Work.read, Work.exec_reading]
  cases w.tree.read (descriptionPath backup) with
  | error e => exact ⟨_, rfl⟩
  | ok raw =>
    simp only [Except.mapError]
    cases (Json.readBytes? raw).bind (ofData? backup) with
    | none => exact ⟨_, rfl⟩
    | some described =>
      simp only
      rw [Work.exec_bind, Work.read, Work.exec_reading]
      cases w.tree.read backup with
      | error e => exact ⟨_, rfl⟩
      | ok bytes =>
        simp only [Except.mapError]
        split
        · exact ⟨_, rfl⟩
        · exact ⟨_, rfl⟩

/-- A directory holds a copy of bytes and a description of it that can be read. -/
structure KeptAt (w : Workspace) (dir : Path) (place : Place) (n : String) (bytes : ByteArray) :
    Prop where
  taken : Taken w n
  taken_description : Taken w (n ++ ".meta.json")
  opens : w.tree.Opens dir place
  file : w.tree.get? (place ++ [n]) = some (.file bytes)
  description : ∃ raw described, w.tree.get? (place ++ [n ++ ".meta.json"]) = some (.file raw) ∧
    (Json.readBytes? raw).bind (ofData? (dir.join n)) = some described ∧
    described.checksum = Checksum.sha256 bytes

/-- The copy at a path is one of the bytes, and can be restored. -/
def Kept (w : Workspace) (backup : Path) (bytes : ByteArray) : Prop :=
  ∃ dir place n, backup = dir.join n ∧ KeptAt w dir place n bytes

theorem descriptionPath_join (dir : Path) {n : String} (hn : Path.Proper n)
    (hd : Path.Proper (n ++ ".meta.json")) :
    descriptionPath (dir.join n) = dir.join (n ++ ".meta.json") := by
  rw [Path.join_eq dir hn, Path.join_eq dir hd, descriptionPath]
  split
  · rw [String.append_assoc]
  · rw [String.append_assoc]

theorem ne_description (n : String) : n ≠ n ++ ".meta.json" := by
  intro h
  have hlength := congrArg String.length h
  rw [String.length_append] at hlength
  have hmore : 0 < ".meta.json".length := by decide
  omega

/-- A change that writes over neither the copy nor its description leaves the copy alone. -/
theorem KeptAt.mono {changed made : Place → Prop} {w w' : Workspace} {dir : Path} {place : Place}
    {n : String} {bytes : ByteArray} (h : KeptAt w dir place n bytes)
    (htaken : ∀ {m}, Taken w m → Taken w' m)
    (ht : FileTree.Becomes changed made w.tree w'.tree) (hcopy : ¬ changed (place ++ [n]))
    (hnote : ¬ changed (place ++ [n ++ ".meta.json"])) : KeptAt w' dir place n bytes where
  taken := htaken h.taken
  taken_description := htaken h.taken_description
  opens := h.opens.becomes ht
  file := ht.file_eq hcopy h.file
  description := by
    obtain ⟨raw, described, hraw, hread⟩ := h.description
    exact ⟨raw, described, ht.file_eq hnote hraw, hread⟩

/-- A change that leaves the names of copies alone leaves copies alone. -/
theorem Kept.mono {changed made : Place → Prop} {w w' : Workspace} {backup : Path}
    {bytes : ByteArray} (h : Kept w backup bytes) (htaken : ∀ {n}, Taken w n → Taken w' n)
    (ht : FileTree.Becomes changed made w.tree w'.tree)
    (hchanged : ∀ r n, changed (r ++ [n]) → ¬ Taken w n) : Kept w' backup bytes := by
  obtain ⟨dir, place, n, hbackup, h⟩ := h
  exact ⟨dir, place, n, hbackup, h.mono htaken ht (fun hc => hchanged _ _ hc h.taken)
    fun hc => hchanged _ _ hc h.taken_description⟩

/-- Operations leave copies alone where the clock moves on. -/
theorem Kept.moves {changed : Place → Prop} {w w' : Workspace} {backup : Path} {bytes : ByteArray}
    (h : Kept w backup bytes) (hahead : w.Ahead) (hw : w.Moves changed w')
    (hchanged : ∀ r n, changed (r ++ [n]) → ¬ Taken w n) : Kept w' backup bytes :=
  h.mono (hw.taken hahead) hw.tree hchanged

/-- The bytes of a copy are those that were copied. -/
theorem Kept.verifiedBytes {w : Workspace} {backup : Path} {bytes : ByteArray}
    (h : Kept w backup bytes) : Work.exec (Backup.verifiedBytes backup) w = (.ok bytes, w) := by
  obtain ⟨dir, place, n, rfl, h⟩ := h
  obtain ⟨raw, described, hraw, hread, hsum⟩ := h.description
  have hfirst : w.tree.read (descriptionPath (dir.join n)) = .ok raw := by
    rw [descriptionPath_join dir h.taken.proper h.taken_description.proper]
    exact h.opens.read h.taken_description.proper hraw
  have hsecond : w.tree.read (dir.join n) = .ok bytes := h.opens.read h.taken.proper h.file
  rw [Backup.verifiedBytes, Work.exec_bind, Work.read, Work.exec_reading, hfirst]
  simp only [Except.mapError, hread]
  rw [Work.exec_bind, Work.read, Work.exec_reading, hsecond]
  simp [Except.mapError, hsum]

/-- Restoring a copy writes the bytes that were copied. -/
theorem Kept.exec_restore {w : Workspace} {backup target : Path} {bytes : ByteArray}
    (h : Kept w backup bytes) : Work.exec (restore backup target) w =
      Work.exec (Work.write target bytes) w := by
  rw [restore, Work.exec_bind, h.verifiedBytes]

/-! ## Copying -/

/-- The description of a copy is read back. -/
theorem readBytes?_description {b : Backup} (path : Path) (htime : b.createdAt.InCalendar)
    (hsize : b.size ≤ Data.countLimit) : ∃ described,
      (Json.readBytes? (Json.pretty b.toData).toUTF8).bind (ofData? path) = some described ∧
        described.checksum = b.checksum := by
  obtain ⟨t, ht⟩ := Time.exists_read?_text htime
  refine ⟨⟨path, t, b.source, b.size, b.checksum⟩, ?_, rfl⟩
  rw [Json.readBytes?_pretty (by simp [toData, Data.Plain, Data.PlainFields, Data.ofNat])]
  have hnat : (Data.ofNat b.size).toNat? Data.countLimit = some b.size := by
    simp [Data.toNat?, Data.ofNat, hsize]
  simp [ofData?, toData, Fields.of?, Fields.required, Fields.get?, Issue.timeOf?, Issue.pathOf?,
    Data.toText?, ht, hnat, List.countP_cons]

/-- The name of the place is one of the path. -/
def Along (dir : Path) (q : Place) : Prop := ∃ r n, .name n ∈ dir.parts ∧ q = r ++ [n]

/-- The place of the next copy of a source in a directory, or that of its description. -/
def NextOf (w : Workspace) (source : Path) (t : FileTree) (dir : Path) (q : Place) : Prop :=
  ∃ r n, n ∈ names source (w.tick w.clock) (Work.idOf w.serial) ∧ t.Opens dir r ∧ q = r ++ [n]

theorem NextOf.becomes {changed made : Place → Prop} {w : Workspace} {source dir : Path}
    {t t' : FileTree} {q : Place} (h : NextOf w source t dir q)
    (ht : FileTree.Becomes changed made t t') : NextOf w source t' dir q := by
  obtain ⟨r, n, hn, hopens, hq⟩ := h
  exact ⟨r, n, hn, hopens.becomes ht, hq⟩

/-- What is written under a name of the next copy is written at its place. -/
theorem becomes_next {w : Workspace} {source dir : Path} {t t' u : FileTree} {place : Place}
    {n : String} (h : FileTree.Becomes (· = place ++ [n]) Nowhere t t')
    (hn : n ∈ names source (w.tick w.clock) (Work.idOf w.serial)) (hu : u.Opens dir place) :
    FileTree.Becomes (NextOf w source u dir) (Along dir) t t' := by
  refine h.mono ?_ fun _ hq => hq.elim
  rintro _ rfl
  exact ⟨place, n, hn, hu, rfl⟩

/-- A copy that is written, and its description after it, can be restored. -/
theorem keptAt_of_written {w : Workspace} {source dir : Path} {t t' : FileTree} {place : Place}
    {n : String} {bytes : ByteArray} (hn : n = name source (w.tick w.clock) (Work.idOf w.serial))
    (hfile : t.get? (place ++ [n]) = some (.file bytes))
    (ht : FileTree.Becomes (· = place ++ [n ++ ".meta.json"]) Nowhere t t')
    (hopens : t'.Opens dir place)
    (hdescription : t'.get? (place ++ [n ++ ".meta.json"]) = some (.file (Json.pretty
      (toData ⟨dir.join n, w.tick w.clock, source, bytes.size, Checksum.sha256 bytes⟩)).toUTF8))
    (htime : (w.tick w.clock).InCalendar) (hsize : bytes.size ≤ Data.countLimit) :
    KeptAt { w with tree := t', clock := w.tick w.clock, serial := w.serial + 1 } dir place n
      bytes := by
  have htaken : ∀ {m : String}, m ∈ names source (w.tick w.clock) (Work.idOf w.serial) →
      Taken { w with tree := t', clock := w.tick w.clock, serial := w.serial + 1 } m :=
    fun hm => ⟨source, _, _, hm, Nat.lt_succ_self _, by
      simpa using Time.reaches_refl (w.tick w.clock)⟩
  obtain ⟨described, hread, hsum⟩ := readBytes?_description
    (b := ⟨dir.join n, w.tick w.clock, source, bytes.size, Checksum.sha256 bytes⟩)
    (dir.join n) htime hsize
  exact {
    taken := htaken (by simp [names, hn])
    taken_description := htaken (by simp [names, hn])
    opens := hopens
    file := ht.file_eq (by simp [ne_description]) hfile
    description := ⟨_, described, hdescription, hread, hsum⟩ }

/-- The place of the next copy in a directory, or that of its description. -/
def Next (w : Workspace) (t : FileTree) (dir : Path) (q : Place) : Prop :=
  ∃ source r n, n ∈ names source (w.tick w.clock) (Work.idOf w.serial) ∧ t.Opens dir r ∧
    q = r ++ [n]

theorem Next.becomes {changed made : Place → Prop} {w : Workspace} {t t' : FileTree}
    {dir : Path} {q : Place} (h : Next w t dir q) (ht : FileTree.Becomes changed made t t') :
    Next w t' dir q := by
  obtain ⟨source, h⟩ := h
  exact ⟨source, NextOf.becomes h ht⟩

theorem Next.not_taken {w : Workspace} {t : FileTree} {dir : Path} (hahead : w.Ahead) {r : Place}
    {n : String} (h : Next w t dir (r ++ [n])) : ¬ Taken w n := by
  obtain ⟨source, r', n', hn, -, hq⟩ := h
  obtain ⟨-, rfl⟩ : r = r' ∧ n = n' := by simpa using hq
  exact not_taken_of_next hahead hn

/-- No link has a name that the next copy of a source gets. -/
def Unlinked (w : Workspace) (source : Path) : Prop :=
  ∀ n ∈ names source (w.tick w.clock) (Work.idOf w.serial), ∀ r p,
    w.tree.get? (r ++ [n]) ≠ some (.link p)

/-- To make a copy writes nothing but the copy and its description, and a copy that was made can be
restored. -/
theorem exec_create {w : Workspace} (hw : w.tree.Grounded) {source : Path} (hlink : Unlinked w source)
    (dir : Path) (bytes : ByteArray) :
    ∃ r w', Work.exec (create dir source bytes) w = (r, w') ∧ w.Precedes w' ∧
      FileTree.Becomes (NextOf w source w'.tree dir) (Along dir) w.tree w'.tree ∧
      w'.store = w.store ∧ ∀ b, r = .ok b → (w.tick w.clock).InCalendar →
        bytes.size ≤ Data.countLimit →
          b.path = dir.join (name source (w.tick w.clock) (Work.idOf w.serial)) ∧ ∃ place,
            KeptAt w' dir place (name source (w.tick w.clock) (Work.idOf w.serial)) bytes := by
  rw [create, Work.exec_bind, Work.makeDirectories, Work.exec_changing]
  cases hmake : w.tree.makeDirectories dir with
  | error e => exact ⟨_, _, rfl, .refl _, .refl _ _ _, rfl, by simp⟩
  | ok t =>
    have hnext : ∀ u : FileTree,
        w.Precedes { w with tree := u, clock := w.tick w.clock, serial := w.serial + 1 } :=
      fun u => ⟨Nat.le_succ _, rfl, rfl, 1, by simp, rfl⟩
    have ht : ∀ {changed : Place → Prop}, FileTree.Becomes changed (Along dir) w.tree t :=
      (FileTree.becomes_makeDirectories hw hmake).mono (fun _ h => h.elim) fun _ h => h
    simp only [Work.exec_bind, Work.exec_now, Work.exec_freshId]
    have hcopy : name source (w.tick w.clock) (Work.idOf w.serial) ∈
        names source (w.tick w.clock) (Work.idOf w.serial) := List.mem_cons_self
    have hnote : name source (w.tick w.clock) (Work.idOf w.serial) ++ ".meta.json" ∈
        names source (w.tick w.clock) (Work.idOf w.serial) := by simp [names]
    generalize hn : name source (w.tick w.clock) (Work.idOf w.serial) = n at hcopy hnote ⊢
    rcases Work.exec_write (dir.join n) bytes { w with
      tree := t, clock := w.tick w.clock, serial := w.serial + 1 } with
      ⟨t₁, hfirst, -, hexec⟩ | ⟨_, _, hfault, -⟩
    · obtain ⟨place, hopens₁, hfile, ht₁⟩ := FileTree.becomes_write (proper_of_mem_names hcopy)
        (fun r p he => hlink n hcopy r p ((@ht Nowhere).link.mp he)) hfirst
      rw [hexec]
      simp only
      rw [descriptionPath_join dir (proper_of_mem_names hcopy) (proper_of_mem_names hnote)]
      generalize hraw : (Json.pretty (toData _)).toUTF8 = raw
      rcases Work.exec_write (dir.join (n ++ ".meta.json")) raw { w with
        tree := t₁, clock := w.tick w.clock, serial := w.serial + 1 } with
        ⟨t₂, hsecond, -, hexec⟩ | ⟨_, _, hfault, -⟩
      · obtain ⟨place', hopens, hdescription, ht₂⟩ := FileTree.becomes_write
          (proper_of_mem_names hnote) (fun r p he => hlink _ hnote r p
            ((@ht Nowhere).link.mp (ht₁.link.mp he))) hsecond
        obtain rfl := (hopens₁.becomes ht₂).unique hopens
        rw [hexec]
        refine ⟨_, _, rfl, hnext t₂,
          (ht.trans (becomes_next ht₁ hcopy hopens)).trans (becomes_next ht₂ hnote hopens), rfl, ?_⟩
        rintro b ⟨⟩ htime hsize
        exact ⟨rfl, place, keptAt_of_written hn.symm hfile ht₂ hopens (hraw ▸ hdescription) htime
          hsize⟩
      · rw [hfault]
        exact ⟨_, _, rfl, hnext t₁, ht.trans (becomes_next ht₁ hcopy hopens₁), rfl, by simp⟩
    · rw [hfault]
      exact ⟨_, _, rfl, hnext t, ht, rfl, by simp⟩

/-- What the description of the next copy of a source says. -/
def described (w : Workspace) (source : Path) (bytes : ByteArray) : ByteArray :=
  (Json.pretty (toData ⟨source, w.tick w.clock, source, bytes.size,
    Checksum.sha256 bytes⟩)).toUTF8

/-- A copy is made where the directory can be made, the names are not in use and the disk never
refuses. The new files are the copy and its description. -/
theorem exec_create_ok {w : Workspace} (hdisk : w.disk.Willing) {dir source : Path} {t : FileTree}
    {place : Place} (hmake : w.tree.makeDirectories dir = .ok t) (hopens : t.Opens dir place)
    (hfree : ∀ n ∈ names source (w.tick w.clock) (Work.idOf w.serial), t.get? (place ++ [n]) = none)
    (bytes : ByteArray) : ∃ b w', Work.exec (create dir source bytes) w = (.ok b, w') ∧
      ∀ q e, w'.tree.get? q = some (.file e) →
        t.get? q = some (.file e) ∨ e = bytes ∨ e = described w source bytes := by
  rw [create, Work.exec_bind, Work.makeDirectories, Work.exec_changing, hmake]
  simp only [Work.exec_bind, Work.exec_now, Work.exec_freshId]
  have hcopy : name source (w.tick w.clock) (Work.idOf w.serial) ∈
      names source (w.tick w.clock) (Work.idOf w.serial) := List.mem_cons_self
  have hnote : name source (w.tick w.clock) (Work.idOf w.serial) ++ ".meta.json" ∈
      names source (w.tick w.clock) (Work.idOf w.serial) := by simp [names]
  generalize name source (w.tick w.clock) (Work.idOf w.serial) = n at hcopy hnote ⊢
  have hfirst := hopens.write (proper_of_mem_names hcopy) (by simp [hfree n hcopy]) bytes
  rw [Work.exec_write_ok (w := { w with
    tree := t, clock := w.tick w.clock, serial := w.serial + 1 }) hfirst (hdisk _ _ _ _)]
  have ht : FileTree.Becomes (· = place ++ [n]) _ t (t.set (place ++ [n]) (.file bytes)) :=
    FileTree.becomes_set_file hopens.directory (by simp [hfree n hcopy]) (by simp [hfree n hcopy])
      bytes
  have hnone : (t.set (place ++ [n]) (.file bytes)).get? (place ++ [n ++ ".meta.json"]) = none := by
    rw [FileTree.get?_set _ (by simp), if_neg (by simp)]
    exact hfree _ hnote
  have hsecond := (hopens.becomes ht).write (proper_of_mem_names hnote) (by simp [hnone])
  simp only
  rw [descriptionPath_join dir (proper_of_mem_names hcopy) (proper_of_mem_names hnote),
    Work.exec_write_ok (w := { w with
      tree := t.set (place ++ [n]) (.file bytes), clock := w.tick w.clock, serial := w.serial + 1 })
      (hsecond _) (hdisk _ _ _ _)]
  refine ⟨_, _, rfl, fun q e he => ?_⟩
  rw [FileTree.get?_set _ (by simp), FileTree.get?_set _ (by simp)] at he
  split at he
  · cases he
    exact Or.inr (Or.inr rfl)
  · split at he
    · cases he
      exact Or.inr (Or.inl rfl)
    · exact Or.inl he

end Backup

end Mend
