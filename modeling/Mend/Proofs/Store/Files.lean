import Mend.Proofs.FileTree.Opening
import Mend.Proofs.Store.Basic
import Mend.Proofs.Store.Trail

/-!
# The files of a store

A directory holds the files of a store when they say issues, fixes and the text of an audit trail
(`Store.Holds`); a file that was never written is missing and says nothing. Each write of the store
keeps the directory such (`exec_persist`, `exec_close`, `exec_append`), and a store that is opened on
it finds what the files say (`exec_openAt`). The text of the audit trail may be any: what its lines
mean is told elsewhere.
-/

namespace Mend

namespace Store

open Work (exec)

/-! ## What the files say -/

/-- A file says the records that were written to it. Before anything is written it is missing. -/
def Says {α : Type} (write : α → Data) (records : List α) (entry : Option Entry) : Prop :=
  entry = some (.file (Json.pretty (.list (records.map write))).toUTF8) ∨
    (entry = none ∧ records = [])

/-- A file has a text. A missing file has none. -/
def Reads (text : String) (entry : Option Entry) : Prop :=
  entry = some (.file text.toUTF8) ∨ (entry = none ∧ text = "")

/-- The directory at a place holds files that say the issues and the fixes, and the text of an audit
trail. -/
structure Holds (t : FileTree) (dir : Path) (place : Place) (issues : List Issue)
    (fixes : List Fix) (text : String) : Prop where
  opens : t.Opens dir place
  issues : Says Issue.toData issues (t.get? (place ++ [issuesFile]))
  fixes : Says Fix.toData fixes (t.get? (place ++ [fixesFile]))
  trail : Reads text (t.get? (place ++ [applicationsFile]))
  lock : ∀ e, t.get? (place ++ [lockFile]) = some e → ∃ b, e = .file b

theorem Says.plain {α : Type} {write : α → Data} {records : List α} {entry : Option Entry}
    (h : Says write records entry) : ∀ e, entry = some e → ∃ b, e = .file b := by
  rintro e rfl
  rcases h with h | ⟨h, -⟩
  · exact ⟨_, Option.some.inj h⟩
  · cases h

theorem Reads.plain {text : String} {entry : Option Entry} (h : Reads text entry) :
    ∀ e, entry = some e → ∃ b, e = .file b := by
  rintro e rfl
  rcases h with h | ⟨h, -⟩
  · exact ⟨_, Option.some.inj h⟩
  · cases h

theorem get?_set_name (t : FileTree) (place : Place) (n m : String) (e : Entry) :
    (t.set (place ++ [n]) e).get? (place ++ [m]) =
      if m = n then some e else t.get? (place ++ [m]) := by
  rw [FileTree.get?_set t (by simp)]
  simp

theorem opens_set {t : FileTree} {dir : Path} {place : Place} {n : String}
    (h : t.Opens dir place) (hplain : ∀ e, t.get? (place ++ [n]) = some e → ∃ b, e = .file b)
    (bytes : ByteArray) : (t.set (place ++ [n]) (.file bytes)).Opens dir place := by
  refine h.becomes (FileTree.becomes_set_file h.directory ?_ ?_ bytes)
  · intro he
    obtain ⟨b, hb⟩ := hplain _ he
    cases hb
  · intro p he
    obtain ⟨b, hb⟩ := hplain _ he
    cases hb

namespace Holds

variable {t : FileTree} {dir : Path} {place : Place} {issues : List Issue} {fixes : List Fix}
  {text : String}

theorem plain (h : Holds t dir place issues fixes text) {file : String} (hfile : file ∈ files) :
    ∀ e, t.get? (place ++ [file]) = some e → ∃ b, e = .file b := by
  simp only [files, List.mem_cons, List.not_mem_nil, or_false] at hfile
  rcases hfile with rfl | rfl | rfl
  · exact h.issues.plain
  · exact h.fixes.plain
  · exact h.trail.plain

/-- An empty directory holds no records. -/
theorem empty (hopens : t.Opens dir place) (hempty : ∀ n, t.get? (place ++ [n]) = none) :
    Holds t dir place [] [] "" where
  opens := hopens
  issues := Or.inr ⟨hempty _, rfl⟩
  fixes := Or.inr ⟨hempty _, rfl⟩
  trail := Or.inr ⟨hempty _, rfl⟩
  lock := fun e he => by simp [hempty] at he

theorem setIssues (h : Holds t dir place issues fixes text) (new : List Issue) :
    Holds (t.set (place ++ [issuesFile]) (.file (Json.pretty (.list (new.map Issue.toData))).toUTF8))
      dir place new fixes text where
  opens := opens_set h.opens h.issues.plain _
  issues := by
    rw [get?_set_name, if_pos rfl]
    exact Or.inl rfl
  fixes := by
    rw [get?_set_name, if_neg (by decide)]
    exact h.fixes
  trail := by
    rw [get?_set_name, if_neg (by decide)]
    exact h.trail
  lock := by
    rw [get?_set_name, if_neg (by decide)]
    exact h.lock

theorem setFixes (h : Holds t dir place issues fixes text) (new : List Fix) :
    Holds (t.set (place ++ [fixesFile]) (.file (Json.pretty (.list (new.map Fix.toData))).toUTF8))
      dir place issues new text where
  opens := opens_set h.opens h.fixes.plain _
  issues := by
    rw [get?_set_name, if_neg (by decide)]
    exact h.issues
  fixes := by
    rw [get?_set_name, if_pos rfl]
    exact Or.inl rfl
  trail := by
    rw [get?_set_name, if_neg (by decide)]
    exact h.trail
  lock := by
    rw [get?_set_name, if_neg (by decide)]
    exact h.lock

theorem setTrail (h : Holds t dir place issues fixes text) (new : String) :
    Holds (t.set (place ++ [applicationsFile]) (.file new.toUTF8)) dir place issues fixes new where
  opens := opens_set h.opens h.trail.plain _
  issues := by
    rw [get?_set_name, if_neg (by decide)]
    exact h.issues
  fixes := by
    rw [get?_set_name, if_neg (by decide)]
    exact h.fixes
  trail := by
    rw [get?_set_name, if_pos rfl]
    exact Or.inl rfl
  lock := by
    rw [get?_set_name, if_neg (by decide)]
    exact h.lock

/-- What is added to the audit trail stands after what was there. -/
theorem append (h : Holds t dir place issues fixes text) (added : String) : ∃ t',
    t.append (dir.join applicationsFile) added.toUTF8 = .ok t' ∧
      Holds t' dir place issues fixes (text ++ added) := by
  have hproper : Path.Proper applicationsFile := proper_of_mem_files (by simp [files])
  refine ⟨_, ?_, h.setTrail (text ++ added)⟩
  rcases h.trail with htext | ⟨hnone, rfl⟩
  · exact h.opens.append_file hproper htext _
  · rw [String.empty_append]
    exact h.opens.append_missing hproper hnone _

/-- The directory is marked as in use. -/
theorem mark (h : Holds t dir place issues fixes text) : ∃ t',
    t.append (dir.join lockFile) ByteArray.empty = .ok t' ∧
      Holds t' dir place issues fixes text := by
  have hproper : Path.Proper lockFile := by constructor <;> decide
  obtain ⟨bytes, hbytes⟩ := h.opens.append hproper h.lock ByteArray.empty
  refine ⟨_, hbytes, ?_⟩
  constructor
  · exact opens_set h.opens h.lock _
  · rw [get?_set_name, if_neg (by decide)]
    exact h.issues
  · rw [get?_set_name, if_neg (by decide)]
    exact h.fixes
  · rw [get?_set_name, if_neg (by decide)]
    exact h.trail
  · rw [get?_set_name, if_pos rfl]
    rintro e he
    exact ⟨bytes, (Option.some.inj he).symm⟩

end Holds

/-! ## Reading the files -/

/-- What is written is not empty, for then nothing would be read. -/
theorem isEmpty_pretty {d : Data} (h : d.Plain) : (Json.pretty d).toUTF8.isEmpty = false := by
  cases hempty : (Json.pretty d).toUTF8.isEmpty with
  | false => rfl
  | true =>
    have hnone : Json.readBytes? ByteArray.empty = none := by
      have hbytes : Text.ofBytes ByteArray.empty = [] := by
        rw [Text.ofBytes, Text.toList_eq]
        rfl
      rw [Json.readBytes?, hbytes]
      rfl
    have hbytes : (Json.pretty d).toUTF8 = ByteArray.empty := by
      have hsize : (Json.pretty d).toUTF8.size = 0 := by simpa [ByteArray.isEmpty] using hempty
      exact ByteArray.size_eq_zero_iff.mp hsize
    have hread := Json.readBytes?_pretty h
    rw [hbytes, hnone] at hread
    cases hread

/-- The records of a file are the ones that were written to it. -/
theorem exec_load {α : Type} {write : α → Data} {read? : Data → Option α} {w : Workspace}
    {dir : Path} {place : Place} (hopens : w.tree.Opens dir place) {file : String}
    (hfile : file ∈ files) {records : List α}
    (hmeans : Says write records (w.tree.get? (place ++ [file])))
    (hplain : ∀ a ∈ records, (write a).Plain) (hread : ∀ a ∈ records, read? (write a) = some a) :
    exec (load (dir.join file) read?) w = (.ok records, w) := by
  rw [load, Work.exec_bind, Work.exec_tree]
  rcases hmeans with hbytes | ⟨hnone, rfl⟩
  · have hlist : (Data.list (records.map write)).Plain := Data.plain_list (by simpa using hplain)
    simp only [hopens.read (proper_of_mem_files hfile) hbytes, isEmpty_pretty hlist,
      Json.readBytes?_pretty hlist, Option.bind_some, Data.toList?_map hread]
    rfl
  · simp only [hopens.read_missing (proper_of_mem_files hfile) hnone]
    rfl

theorem exec_loadTrail {w : Workspace} {dir : Path} {place : Place}
    (hopens : w.tree.Opens dir place) {text : String}
    (htext : Reads text (w.tree.get? (place ++ [applicationsFile]))) :
    exec (loadTrail (dir.join applicationsFile)) w = (.ok (readTrail text), w) := by
  have hproper : Path.Proper applicationsFile := proper_of_mem_files (by simp [files])
  rw [loadTrail, Work.exec_bind, Work.exec_tree]
  rcases htext with htext | ⟨hnone, rfl⟩
  · simp only [hopens.readText hproper htext]
    rfl
  · simp only [hopens.readText_missing hproper hnone]
    rfl

/-- A store that is opened on a directory has the records that the files say. -/
theorem exec_openAt {w : Workspace} {dir : Path} {place : Place} {issues : List Issue}
    {fixes : List Fix} {text : String} (h : Holds w.tree dir place issues fixes text)
    (hissues : ∀ i ∈ issues, i.Storable) (hfixes : ∀ f ∈ fixes, f.Storable) : ∃ w',
    exec (openAt dir) w = (.ok (), w') ∧ w'.disk = w.disk ∧
      w'.store = ⟨some dir, ⟨issues, fixes, readTrail text⟩⟩ ∧
      Holds w'.tree dir place issues fixes text := by
  obtain ⟨t, hmark, ht⟩ := h.mark
  have hloadIssues : exec (load (dir.join issuesFile) Issue.ofData?) { w with tree := t } =
      (.ok issues, { w with tree := t }) :=
    exec_load ht.opens (by simp [files]) ht.issues (fun i _ => i.plain_toData)
      fun i hi => Issue.ofData?_toData (hissues i hi)
  have hloadFixes : exec (load (dir.join fixesFile) Fix.ofData?) { w with tree := t } =
      (.ok fixes, { w with tree := t }) :=
    exec_load ht.opens (by simp [files]) ht.fixes (fun f _ => f.plain_toData)
      fun f hf => Fix.ofData?_toData (hfixes f hf)
  have hloadTrail : exec (loadTrail (dir.join applicationsFile)) { w with tree := t } =
      (.ok (readTrail text), { w with tree := t }) := exec_loadTrail ht.opens ht.trail
  refine ⟨{ w with tree := t, store := ⟨some dir, ⟨issues, fixes, readTrail text⟩⟩ }, ?_, rfl, rfl,
    ht⟩
  rw [openAt, Work.exec_bind, Work.makeDirectories, Work.exec_changing, h.opens.makeDirectories]
  simp only
  rw [Work.exec_bind, lock, Work.exec_changing, hmark]
  simp only
  rw [Work.exec_bind, hloadIssues]
  simp only
  rw [Work.exec_bind, hloadFixes]
  simp only
  rw [Work.exec_bind, hloadTrail]
  rfl

/-! ## Writing the files -/

section

variable {w : Workspace} {dir : Path} {place : Place} {r : Records} {issues : List Issue}
  {fixes : List Fix} {text : String}

/-- A file of the home directory is written. -/
theorem exec_persist {issues' : List Issue} {fixes' : List Fix}
    (hstore : w.store = ⟨some dir, r⟩) (hdisk : Accepts w.disk dir)
    (h : Holds w.tree dir place issues fixes text)
    {file : String} (hfile : file ∈ files) {items : List Data}
    (hset : Holds (w.tree.set (place ++ [file]) (.file (Json.pretty (.list items)).toUTF8)) dir
      place issues' fixes' text) : ∃ w',
    exec (persist file items) w = (.ok (), w') ∧ w'.disk = w.disk ∧ w'.store = ⟨some dir, r⟩ ∧
      Holds w'.tree dir place issues' fixes' text := by
  have hwrite := h.opens.write (proper_of_mem_files hfile) (by
    intro he
    obtain ⟨b, hb⟩ := h.plain hfile _ he
    cases hb) (Json.pretty (.list items)).toUTF8
  rw [persist, Work.exec_bind, Work.exec_get]
  simp only [hstore]
  exact ⟨_, Work.exec_write_ok hwrite (hdisk file hfile _ _ _), rfl, hstore, hset⟩

theorem exec_persistIssues (hstore : w.store = ⟨some dir, r⟩) (hdisk : Accepts w.disk dir)
    (h : Holds w.tree dir place issues fixes text) : ∃ w',
    exec persistIssues w = (.ok (), w') ∧ w'.disk = w.disk ∧ w'.store = ⟨some dir, r⟩ ∧
      Holds w'.tree dir place r.issues fixes text := by
  rw [persistIssues, Work.exec_bind, exec_current, hstore]
  exact exec_persist hstore hdisk h (by simp [files]) (h.setIssues r.issues)

theorem exec_persistFixes (hstore : w.store = ⟨some dir, r⟩) (hdisk : Accepts w.disk dir)
    (h : Holds w.tree dir place issues fixes text) : ∃ w',
    exec persistFixes w = (.ok (), w') ∧ w'.disk = w.disk ∧ w'.store = ⟨some dir, r⟩ ∧
      Holds w'.tree dir place issues r.fixes text := by
  rw [persistFixes, Work.exec_bind, exec_current, hstore]
  exact exec_persist hstore hdisk h (by simp [files]) (h.setFixes r.fixes)

/-- Everything is written once more, and the audit trail stays as it is. -/
theorem exec_close (hstore : w.store = ⟨some dir, r⟩) (hdisk : Accepts w.disk dir)
    (h : Holds w.tree dir place issues fixes text) : ∃ w',
    exec close w = (.ok (), w') ∧ w'.disk = w.disk ∧ w'.store = ⟨some dir, r⟩ ∧
      Holds w'.tree dir place r.issues r.fixes text := by
  obtain ⟨w₁, hexec₁, hdisk₁, hstore₁, hholds₁⟩ := exec_persistIssues hstore hdisk h
  obtain ⟨w₂, hexec₂, hdisk₂, hstore₂, hholds₂⟩ :=
    exec_persistFixes hstore₁ (hdisk₁ ▸ hdisk) hholds₁
  exact ⟨w₂, by rw [close, Work.exec_bind, hexec₁]; exact hexec₂, hdisk₂.trans hdisk₁, hstore₂,
    hholds₂⟩

/-- A line is added to the file of the audit trail, whatever it says, and in memory. -/
theorem exec_append (hstore : w.store = ⟨some dir, r⟩)
    (h : Holds w.tree dir place issues fixes text) (a : Application) : ∃ w',
    exec (append a) w = (.ok (), w') ∧ w'.disk = w.disk ∧ w'.store = ⟨some dir, r.append a⟩ ∧
      Holds w'.tree dir place issues fixes (text ++ lineOf a) := by
  obtain ⟨t, happend, ht⟩ := h.append (lineOf a)
  refine ⟨{ w with tree := t, store := ⟨some dir, r.append a⟩ }, ?_, rfl, rfl, ht⟩
  rw [lineOf] at happend
  rw [append, Work.exec_bind, Work.exec_get]
  simp only [hstore]
  rw [Work.exec_bind, Work.exec_changing, happend]
  simp only
  rw [Work.exec_bind, exec_current, hstore]
  rfl

end

end Store

end Mend
