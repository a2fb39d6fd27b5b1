import Mend.Proofs.Patch.Applier

/-!
# Calls of an applier, one after the other

An applier is called to apply fixes and to write copies back, in any order (`Patch.Calls`). Between
two calls others may do anything to the files: remove or change copies, their descriptions and the
files that were patched. All that is asked is that the names of new copies are not in use, and that
the disk, which may refuse to replace a file at any time, takes the old bytes of a file back if it has
just taken new ones.

A call that fails leaves its file as it was, and no call writes anything but its file and new copies
(`CallStep.Safe`). Where the copy that a call made is as it was left (`Backup.Intact`), writing it
back gives the file the bytes that it had before that call, whatever happened in between
(`Calls.reversible`).
-/

namespace Mend

open Work (exec)

namespace Backup

/-- Nothing has a name that the next copy of a source gets. -/
def Fresh (w : Workspace) (source : Path) : Prop :=
  ∀ n ∈ names source (w.tick w.clock) (Work.idOf w.serial), ∀ r, w.tree.get? (r ++ [n]) = none

theorem Fresh.unlinked {w : Workspace} {source : Path} (h : Fresh w source) : Unlinked w source := by
  intro n hn r p hlink
  rw [h n hn r] at hlink
  cases hlink

theorem NextOf.fresh {w : Workspace} {source dir : Path} {t : FileTree} {q : Place}
    (h : NextOf w source t dir q) (hfresh : Fresh w source) : w.tree.get? q = none := by
  obtain ⟨r, n, hn, -, rfl⟩ := h
  exact hfresh n hn r

/-- The copy at a path and its description are in one workspace as they are in another one. -/
structure Intact (w w' : Workspace) (backup : Path) : Prop where
  copy : w'.tree.read backup = w.tree.read backup
  description : w'.tree.read (descriptionPath backup) = w.tree.read (descriptionPath backup)

/-- Whether a copy is used depends on the copy and its description. -/
theorem Intact.verifiedBytes {w w' : Workspace} {backup : Path} (h : Intact w w' backup)
    {bytes : ByteArray} (hbytes : exec (Backup.verifiedBytes backup) w = (.ok bytes, w)) :
    exec (Backup.verifiedBytes backup) w' = (.ok bytes, w') := by
  rw [Backup.verifiedBytes, Work.exec_bind, Work.read, Work.exec_reading] at hbytes ⊢
  rw [h.description]
  cases hraw : w.tree.read (descriptionPath backup) with
  | error e => simp [hraw, Except.mapError] at hbytes
  | ok raw =>
    simp only [hraw, Except.mapError] at hbytes ⊢
    cases hdescribed : (Json.readBytes? raw).bind (ofData? backup) with
    | none => simp [hdescribed] at hbytes
    | some described =>
      simp only [hdescribed] at hbytes ⊢
      rw [Work.exec_bind, Work.read, Work.exec_reading] at hbytes ⊢
      rw [h.copy]
      cases hcopy : w.tree.read backup with
      | error e => simp [hcopy, Except.mapError] at hbytes
      | ok found =>
        simp only [hcopy, Except.mapError] at hbytes ⊢
        split at hbytes
        · obtain rfl : found = bytes := by simpa using hbytes
          simp [*]
        · simp at hbytes

end Backup

namespace Patch

/-! ## The place of a file -/

/-- The place at which the bytes of a file are kept or would be put. -/
def Target (t : FileTree) (file : Path) (place : Place) : Prop :=
  t.placeFor (knownAs t file) = .ok place

section

variable {t : FileTree} {file : Path} {place : Place}

theorem knownAs_of_resolve (h : t.resolve file = .ok place) : knownAs t file = .ofPlace place := by
  simp [knownAs, FileTree.canonical, h, Except.map]

/-- A file that can be read is known by the canonical path of its place. -/
theorem fileAt_of_read (ht : t.Grounded) {bytes : ByteArray}
    (h : t.read (knownAs t file) = .ok bytes) : ∃ place,
      t.resolve file = .ok place ∧ t.FileAt (knownAs t file) place ∧
        t.get? place = some (.file bytes) := by
  cases hresolve : t.resolve file with
  | error e =>
    have hsame : knownAs t file = file := by simp [knownAs, FileTree.canonical, hresolve, Except.map]
    obtain ⟨place, hplace, -⟩ := FileTree.read_eq_ok.mp h
    rw [hsame, hresolve] at hplace
    cases hplace
  | ok place =>
    obtain ⟨e, he, hplain⟩ := FileTree.plain_of_resolve ht hresolve
    have hproper := FileTree.proper_of_resolve ht hresolve
    rw [knownAs_of_resolve hresolve] at h ⊢
    obtain ⟨place', hplace, hbytes⟩ := FileTree.read_eq_ok.mp h
    obtain rfl : place = place' :=
      Except.ok.inj ((FileTree.resolve_ofPlace ht hproper he hplain).symm.trans hplace)
    exact ⟨place, rfl, FileTree.fileAt_of_resolve ht hresolve hbytes, hbytes⟩

/-- Where a file is put that cannot be found. -/
theorem leads_of_target (hresolve : ∀ place, t.resolve file ≠ .ok place) (h : Target t file place) :
    ∃ parts q n, file.parts = parts ++ [.name n] ∧ place = q ++ [n] ∧
      t.Leads FileTree.linkLimit t.start parts q := by
  have hsame : knownAs t file = file := by
    cases hplace : t.resolve file with
    | error e => simp [knownAs, FileTree.canonical, hplace, Except.map]
    | ok place => exact absurd hplace (hresolve place)
  rw [Target, hsame, FileTree.placeFor] at h
  split at h
  · next n hlast =>
    obtain ⟨parts, hparts⟩ := List.getLast?_eq_some_iff.mp hlast
    rw [hparts, List.dropLast_concat] at h
    simp only [bind, Except.bind] at h
    split at h
    · cases h
    · next q hfollow =>
      split at h
      · exact ⟨parts, q, n, hparts, (Except.ok.inj h).symm, .of_follow hfollow⟩
      · cases h
  · exact absurd h (hresolve place)

/-- Bytes that are put at the place of a file are read from there, unless a link was there. -/
theorem read_set_target (ht : t.Grounded) (h : Target t file place)
    (hdir : t.get? place ≠ some .directory) (hlink : ∀ p, t.get? place ≠ some (.link p))
    (bytes : ByteArray) : (t.set place (.file bytes)).read file = .ok bytes := by
  obtain ⟨q, n, rfl, hparent⟩ := FileTree.parent_of_placeFor ht h hdir
  have hbecomes := FileTree.becomes_set_file hparent hdir hlink bytes
  have hget : (t.set (q ++ [n]) (.file bytes)).get? (q ++ [n]) = some (.file bytes) := by
    rw [FileTree.get?_set _ (by simp), if_pos rfl]
  refine FileTree.read_eq_ok.mpr ⟨q ++ [n], ?_, hget⟩
  by_cases hfound : ∃ found, t.resolve file = .ok found
  · obtain ⟨found, hresolve⟩ := hfound
    obtain ⟨e, he, -⟩ := FileTree.plain_of_resolve ht hresolve
    have hproper := FileTree.proper_of_resolve ht hresolve
    rw [Target, knownAs_of_resolve hresolve, FileTree.placeFor_ofPlace ht hproper he] at h
    obtain rfl : found = q ++ [n] := Except.ok.inj h
    exact FileTree.resolve_becomes hresolve hbecomes
  · -- the last name of the path was missing, and is there now
    obtain ⟨parts, q', n', hparts, hq, hleads⟩ := leads_of_target (not_exists.mp hfound) h
    obtain ⟨rfl, rfl⟩ : q = q' ∧ n = n' := by simpa using hq
    have hempty : file.text.isEmpty = false := by
      rw [Bool.eq_false_iff]
      intro hempty
      have hfile : file = ⟨""⟩ := by
        cases file
        simpa using hempty
      rw [hfile] at hparts
      simp [show (⟨""⟩ : Path).parts = [] by decide] at hparts
    rw [FileTree.resolve, hempty, hparts, FileTree.start_set]
    exact ((hleads.becomes hbecomes).concat (hbecomes.directory hparent) hget
      fun p hp => by cases hp).follow false

end

/-! ## Calls -/

/-- A call of an applier. -/
inductive Call where
  | apply (applier : Applier) (fix : Fix)
  | rollback (file backup : Path)

namespace Call

/-- The file that a call is about. -/
def file : Call → Path
  | apply _ fix => fix.file
  | rollback file _ => file

/-- Make a call; what is known of a fix that was applied is given back. -/
def perform : Call → Work (Option Outcome)
  | apply applier fix => some <$> applier.apply fix
  | rollback file backup => (fun _ => none) <$> Applier.rollback file backup

/-- The names of the copies that a call makes are not in use. -/
def Fresh (w : Workspace) : Call → Prop
  | apply _ fix => Backup.Fresh w (knownAs w.tree fix.file)
  | rollback .. => True

/-- A call makes a copy or its description at the place. -/
def Copies (w : Workspace) (t : FileTree) : Call → Place → Prop
  | apply applier fix => Backup.NextOf w (knownAs w.tree fix.file) t applier.backups
  | rollback .. => Nowhere

/-- What a call can come to. The store is not told of it. -/
inductive Does (w : Workspace) : Call → Except Fault (Option Outcome) → Workspace → Prop
  /-- A call that fails may leave a copy behind. -/
  | fails {c e w' made} (htree : FileTree.Becomes (c.Copies w w'.tree) made w.tree w'.tree)
      (hread : w'.tree.read c.file = w.tree.read c.file) (hstore : w'.store = w.store) :
      Does w c (.error e) w'
  | applies {a f outcome place old new w'} (hread : w.tree.read f.file = .ok old)
      (htarget : Target w.tree f.file place)
      (h : Laid w a.backups (knownAs w.tree f.file) place outcome.backup.path old new w')
      (hstore : w'.store = w.store) : Does w (.apply a f) (.ok (some outcome)) w'
  | restores {file backup bytes place} (htarget : Target w.tree file place)
      (hdir : w.tree.get? place ≠ some .directory) :
      Does w (.rollback file backup) (.ok none) { w with tree := w.tree.set place (.file bytes) }

variable {w w' : Workspace} {c : Call} {r : Except Fault (Option Outcome)}

theorem does_apply (hw : w.tree.Grounded) (hrep : w.Representable) (hback : w.disk.TakesBack)
    (a : Applier) (f : Fix) (hfresh : (apply a f).Fresh w) :
    Does w (apply a f) (exec (apply a f).perform w).1 (exec (apply a f).perform w).2 := by
  rw [perform, Work.exec_map, Applier.apply, Work.exec_bind, exec_target]
  simp only
  cases htext : w.tree.readText (knownAs w.tree f.file) with
  | error e =>
    have hexec : exec (a.applyTo (knownAs w.tree f.file) f) w =
        (.error (.io (knownAs w.tree f.file) e), w) := by
      rw [Applier.applyTo, Work.exec_bind, Work.readText, Work.exec_reading, htext]
      rfl
    rw [hexec]
    exact .fails (.refl _ Nowhere _) rfl rfl
  | ok text =>
    obtain ⟨bytes, hbytes⟩ : ∃ bytes, w.tree.read (knownAs w.tree f.file) = .ok bytes := by
      cases hread : w.tree.read (knownAs w.tree f.file) with
      | error e => simp [FileTree.readText, hread, bind, Except.bind] at htext
      | ok bytes => exact ⟨bytes, rfl⟩
    obtain ⟨place, hresolve, hp, hget⟩ := fileAt_of_read hw hbytes
    have hread : w.tree.read f.file = .ok bytes := FileTree.read_eq_ok.mpr ⟨place, hresolve, hget⟩
    obtain ⟨r, w', hexec, -, hstore, hcases⟩ :=
      a.exec_applyTo hw hrep hp (Backup.Fresh.unlinked hfresh) f
    rw [hexec]
    rcases hcases with ⟨e, rfl, htree⟩ | ⟨outcome, old, new, rfl, hlaid, -⟩ | ⟨hnot, -⟩
    · refine .fails htree ?_ hstore
      have hsame := htree.file_eq (fun hq => by simp [hq.fresh hfresh] at hget) hget
      exact (FileTree.read_eq_ok.mpr ⟨place, FileTree.resolve_becomes hresolve htree, hsame⟩).trans
        hread.symm
    · obtain rfl : bytes = old := by simpa [hget] using hlaid.before
      exact .applies hread (hp.placeFor hw) hlaid hstore
    · exact absurd hback hnot

theorem does_rollback (w : Workspace) (file backup : Path) :
    Does w (rollback file backup) (exec (rollback file backup).perform w).1
      (exec (rollback file backup).perform w).2 := by
  rw [perform, Work.exec_map, Applier.rollback, Work.exec_bind, exec_target]
  simp only [Backup.restore]
  obtain ⟨r, hr⟩ := Backup.exec_verifiedBytes w backup
  rw [Work.exec_bind, hr]
  cases r with
  | error e => exact .fails (.refl _ Nowhere _) rfl rfl
  | ok bytes =>
    simp only
    rcases Work.exec_write (knownAs w.tree file) bytes w with
      ⟨t, hwrite, -, hexec⟩ | ⟨refused, cause, hexec, -⟩
    · rw [hexec]
      obtain ⟨place, htarget, hdir, rfl⟩ := FileTree.write_eq_ok.mp hwrite
      exact .restores htarget hdir
    · rw [hexec]
      exact .fails (.refl _ Nowhere _) rfl rfl

theorem does_perform (hw : w.tree.Grounded) (hrep : w.Representable) (hback : w.disk.TakesBack)
    (hfresh : c.Fresh w) : Does w c (exec c.perform w).1 (exec c.perform w).2 := by
  cases c with
  | apply a f => exact does_apply hw hrep hback a f hfresh
  | rollback file backup => exact does_rollback w file backup

theorem Does.grounded (h : Does w c r w') (hw : w.tree.Grounded) : w'.tree.Grounded := by
  cases h with
  | fails htree _ _ => exact hw.becomes htree
  | applies _ _ h _ => exact hw.becomes h.tree
  | restores htarget hdir =>
    obtain ⟨q, n, rfl, hparent⟩ := FileTree.parent_of_placeFor hw htarget hdir
    exact hw.set_file hparent hdir _

theorem Does.store (h : Does w c r w') : w'.store = w.store := by
  cases h with
  | fails _ _ hstore => exact hstore
  | applies _ _ _ hstore => exact hstore
  | restores => rfl

end Call

/-! ## What every call keeps -/

/-- A call, its outcome and the workspaces before and after it. -/
structure CallStep where
  call : Call
  before : Workspace
  result : Except Fault (Option Outcome)
  after : Workspace

/-- The step that a call makes. -/
def Call.step (c : Call) (w : Workspace) : CallStep :=
  ⟨c, w, (exec c.perform w).1, (exec c.perform w).2⟩

/-- What holds of every call. -/
structure CallStep.Safe (s : CallStep) : Prop where
  /-- A call that fails leaves its file as it was. -/
  failed : ∀ e, s.result = .error e →
    s.after.tree.read s.call.file = s.before.tree.read s.call.file
  /-- A fix that was applied has left a copy of the bytes before it, which can be used. -/
  backed : ∀ a f outcome, s.call = .apply a f → s.result = .ok (some outcome) →
    ∃ old, s.before.tree.read f.file = .ok old ∧ s.after.tree.read outcome.backup.path = .ok old ∧
      exec (Backup.verifiedBytes outcome.backup.path) s.after = (.ok old, s.after)
  /-- The file of a call that succeeds and new copies are all that is written. -/
  others : ∀ q, s.after.tree.bytes? q ≠ s.before.tree.bytes? q →
    (s.result.isOk = true ∧ Target s.before.tree s.call.file q) ∨
      (s.before.tree.get? q = none ∧ s.call.Copies s.before s.after.tree q)

theorem Call.Does.safe {c : Call} {w w' : Workspace} {r : Except Fault (Option Outcome)}
    (h : c.Does w r w') (hw : w.tree.Grounded) (hfresh : c.Fresh w) :
    CallStep.Safe ⟨c, w, r, w'⟩ where
  failed := by
    rintro e rfl
    cases h with
    | fails _ hread _ => exact hread
  backed := by
    rintro a f outcome rfl rfl
    cases h with
    | applies hread _ h _ =>
      obtain ⟨spot, n, hpath, -, hkept⟩ := h.kept
      refine ⟨_, hread, ?_, Backup.Kept.verifiedBytes ⟨_, spot, n, hpath, hkept⟩⟩
      rw [hpath]
      exact hkept.opens.read hkept.taken.proper hkept.file
  others := by
    intro q hq
    cases h with
    | fails htree _ _ =>
      have hcopy : c.Copies w w'.tree q := by
        by_contra hnot
        exact hq (htree.bytes?_eq hnot)
      cases c with
      | apply a f => exact Or.inr ⟨hcopy.fresh hfresh, hcopy⟩
      | rollback => exact hcopy.elim
    | applies _ htarget h _ =>
      by_contra hnot
      refine hq (h.tree.bytes?_eq ?_)
      rintro (rfl | hcopy)
      · exact hnot (Or.inl ⟨rfl, htarget⟩)
      · exact hnot (Or.inr ⟨hcopy.fresh hfresh, hcopy⟩)
    | @restores _ _ _ place htarget hdir =>
      obtain ⟨r, n, rfl, -⟩ := FileTree.parent_of_placeFor hw htarget hdir
      by_cases hplace : q = r ++ [n]
      · exact Or.inl ⟨rfl, hplace ▸ htarget⟩
      · refine absurd ?_ hq
        simp only [FileTree.bytes?]
        rw [FileTree.get?_set _ (by simp), if_neg hplace]

/-! ## Runs -/

/-- The steps of calls that were made one after the other, from a workspace to another one. Between
the calls others may leave any files behind. -/
inductive Calls (w₀ : Workspace) : List CallStep → Workspace → Prop
  | start : Calls w₀ [] w₀
  | call {steps w} (h : Calls w₀ steps w) (c : Call) (hrep : w.Representable)
      (hback : w.disk.TakesBack) (hfresh : c.Fresh w) :
      Calls w₀ (steps ++ [c.step w]) (c.step w).after
  | meddle {steps w w'} (h : Calls w₀ steps w) (hw' : w'.tree.Grounded) : Calls w₀ steps w'

/-- The bytes were put at the place of a file, and are read there unless a link was replaced. All
else is as it was. -/
structure Restored (w : Workspace) (file : Path) (place : Place) (bytes : ByteArray)
    (w' : Workspace) : Prop where
  bytes_eq : w'.tree.bytes? place = some bytes
  read : (∀ p, w.tree.get? place ≠ some (.link p)) → w'.tree.read file = .ok bytes
  others : ∀ q, q ≠ place → w'.tree.get? q = w.tree.get? q

/-- A copy that can be used is written back, if the disk takes it. -/
theorem restored_of_verifiedBytes {w : Workspace} (hw : w.tree.Grounded) {file backup : Path}
    {place : Place} {bytes : ByteArray}
    (hbytes : exec (Backup.verifiedBytes backup) w = (.ok bytes, w))
    (htarget : Target w.tree file place) (hdir : w.tree.get? place ≠ some .directory)
    (htakes : w.Takes (knownAs w.tree file) bytes) :
    ∃ w', exec (Applier.rollback file backup) w = (.ok (), w') ∧
      Restored w file place bytes w' := by
  have hwrite : w.tree.write (knownAs w.tree file) bytes = .ok (w.tree.set place (.file bytes)) :=
    FileTree.write_eq_ok.mpr ⟨place, htarget, hdir, rfl⟩
  refine ⟨{ w with tree := w.tree.set place (.file bytes) }, ?_, ?_⟩
  · rw [Applier.rollback, Work.exec_bind, exec_target]
    simp only [Backup.restore]
    rw [Work.exec_bind, hbytes]
    exact Work.exec_write_ok hwrite htakes
  · obtain ⟨q, n, rfl, -⟩ := FileTree.parent_of_placeFor hw htarget hdir
    have hset := FileTree.get?_set w.tree (List.append_ne_nil_of_right_ne_nil q (List.cons_ne_nil n []))
      (.file bytes)
    constructor
    · simp only [FileTree.bytes?, hset, if_pos]
    · exact fun hlink => read_set_target hw htarget hdir hlink bytes
    · exact fun r hr => by rw [hset, if_neg hr]

namespace Calls

variable {w₀ w : Workspace} {steps : List CallStep}

theorem grounded (h : Calls w₀ steps w) (hw₀ : w₀.tree.Grounded) : w.tree.Grounded := by
  induction h with
  | start => exact hw₀
  | call _ c hrep hback hfresh ih => exact (c.does_perform ih hrep hback hfresh).grounded ih
  | meddle _ hw' _ => exact hw'

theorem safe_of_mem (h : Calls w₀ steps w) (hw₀ : w₀.tree.Grounded) {s : CallStep}
    (hs : s ∈ steps) : s.Safe := by
  induction h with
  | start => simp at hs
  | call h c hrep hback hfresh ih =>
    rcases List.mem_append.mp hs with hs | hs
    · exact ih hs
    · rw [List.mem_singleton.mp hs]
      have hw := h.grounded hw₀
      exact (c.does_perform hw hrep hback hfresh).safe hw hfresh
  | meddle _ _ ih => exact ih hs

/-- However an applier is called, and whatever others do to files and copies in between: a call that
fails leaves its file as it was, a fix that is applied leaves a copy of the bytes before it, and no
other file is changed. As long as that copy is as it was left and the disk takes the bytes, rolling
back to it gives the file the bytes that it had just before the fix was applied. -/
theorem reversible (h : Calls w₀ steps w) (hw₀ : w₀.tree.Grounded) {s : CallStep} (hs : s ∈ steps) :
    s.Safe ∧ ∀ a f outcome, s.call = .apply a f → s.result = .ok (some outcome) →
      Backup.Intact s.after w outcome.backup.path →
        ∃ old, s.before.tree.read f.file = .ok old ∧
          ∀ file place, Target w.tree file place → w.tree.get? place ≠ some .directory →
            w.Takes (knownAs w.tree file) old →
              ∃ w', exec (Applier.rollback file outcome.backup.path) w = (.ok (), w') ∧
                Restored w file place old w' := by
  have hsafe := h.safe_of_mem hw₀ hs
  refine ⟨hsafe, fun a f outcome hcall hresult hintact => ?_⟩
  obtain ⟨old, hread, -, hbytes⟩ := hsafe.backed a f outcome hcall hresult
  refine ⟨old, hread, fun file place htarget hdir htakes => ?_⟩
  exact restored_of_verifiedBytes (h.grounded hw₀) (hintact.verifiedBytes hbytes) htarget hdir htakes

end Calls

/-! ## A text of one letter -/

/-- A text, and a directory for copies. -/
def noted : Workspace :=
  { tree := { entries := [(["b"], .directory), (["a"], .file "x".toUTF8)] } }

/-- An applier that checks nothing. -/
def noting : Applier := { backups := ⟨"/b"⟩, validate := false }

/-- A fix of the text. -/
def rewording : Fix :=
  { id := "fix", issueId := "issue", platform := .web, template := "", title := "", description := ""
    confidence := 50, file := ⟨"/a"⟩, line := 1, replacedCode := "x", suggestedCode := "y", diff := ""
    status := .confirmed, createdAt := ⟨0, 0⟩ }

theorem grounded_noted : noted.tree.Grounded :=
  FileTree.grounded_of_entries (by simp [noted, FileTree.get?]) rfl (by simp [noted])

theorem fileAt_noted : noted.tree.FileAt ⟨"/a"⟩ ["a"] := by
  refine ⟨by decide, fun n hn => ?_, _, rfl⟩
  rw [List.mem_singleton.mp hn]
  exact ⟨by decide, by decide, by decide, by decide⟩

theorem fresh_noted : (Call.apply noting rewording).Fresh noted := by
  intro n hn r
  cases hentry : noted.tree.get? (r ++ [n]) with
  | none => rfl
  | some e =>
    have hmem := FileTree.mem_entries_of_get? hentry
    have hlength : n.toList.length = 1 := by
      simp only [noted, List.mem_cons, List.not_mem_nil, Prod.mk.injEq, or_false] at hmem
      rcases hmem with ⟨hplace, -⟩ | ⟨hplace, -⟩ <;>
        simp [List.append_eq_singleton_iff] at hplace <;> simp [hplace]
    rcases Backup.toList_of_mem_names hn with h | h <;> simp [h] at hlength

theorem opens_noted : noted.tree.Opens ⟨"/b"⟩ ["b"] := by
  have hparts : (⟨"/b"⟩ : Path).parts = [.root, .name "b"] := by decide
  constructor
  · rw [hparts]
    exact .root (.enter (e := .directory) rfl rfl (by simp) .done)
  · rfl

theorem makeDirectories_noted : noted.tree.makeDirectories ⟨"/b"⟩ = .ok noted.tree := by
  have hparts : (⟨"/b"⟩ : Path).parts = [.root, .name "b"] := by decide
  have hpath : Path.ofParts [.root, .name "b"] = ⟨"/b"⟩ := by decide
  have hplace : noted.tree.placeFor ⟨"/b"⟩ = .ok ["b"] := by
    have hfollow : noted.tree.follow false FileTree.linkLimit noted.tree.start [.root] = .ok [] := by
      rw [FileTree.follow, FileTree.follow]
    rw [FileTree.placeFor, hparts]
    simp only [List.getLast?, List.getLast, List.dropLast, hfollow]
    rfl
  have hmake : noted.tree.makeDirectory ⟨"/b"⟩ = .error .alreadyExists := by
    simp only [FileTree.makeDirectory, hplace]
    rfl
  have hdir : noted.tree.isDirectory ⟨"/b"⟩ = true := by
    have hresolve : noted.tree.resolve ⟨"/b"⟩ = .ok ["b"] := opens_noted.leads.follow false
    simp only [FileTree.isDirectory, FileTree.lookup, hresolve]
    rfl
  rw [FileTree.makeDirectories, hparts, FileTree.makeDirectoriesOf, hpath]
  simp only [hmake, hdir]
  rfl

theorem readText_noted : noted.tree.readText ⟨"/a"⟩ = .ok "x" := by
  rw [FileTree.readText, fileAt_noted.read grounded_noted rfl]
  decide

theorem representable_noted : noted.Representable where
  clock := by
    rw [Time.InCalendar]
    decide
  size := by
    intro q bytes hq
    rcases List.eq_nil_or_concat' q with rfl | ⟨dir, n, rfl⟩
    · simp at hq
    · have hmem := FileTree.mem_entries_of_get? hq
      simp only [noted, List.mem_cons, Prod.mk.injEq, List.not_mem_nil, or_false, reduceCtorEq,
        and_false, false_or, Entry.file.injEq] at hmem
      rw [hmem.2]
      decide

theorem exec_apply_noted : ∃ outcome w,
    exec (noting.apply rewording) noted = (.ok outcome, w) ∧ w.disk.Willing := by
  have hfresh := fresh_noted
  rw [Call.Fresh, rewording, knownAs_of_fileAt grounded_noted fileAt_noted] at hfresh
  rw [Applier.apply, Work.exec_bind, exec_target, rewording,
    knownAs_of_fileAt grounded_noted fileAt_noted]
  obtain ⟨r, w, hexec, hprecedes, -⟩ := noting.exec_applyTo grounded_noted representable_noted
    fileAt_noted hfresh.unlinked rewording
  obtain ⟨b, w', hcopy, -⟩ := Backup.exec_create_ok Disk.willing_default makeDirectories_noted
    opens_noted (fun n hn => hfresh n hn ["b"]) "x".toUTF8
  obtain ⟨outcome, hok⟩ := noting.exec_applyTo_ok grounded_noted Disk.willing_default fileAt_noted
    hfresh.unlinked readText_noted hcopy rewording (Or.inl rfl)
  obtain ⟨rfl, rfl⟩ := Prod.mk.inj (hexec.symm.trans hok)
  exact ⟨outcome, _, hok, hprecedes.disk ▸ Disk.willing_default⟩

/-- The fix is applied, and rolling it back gives the text back. -/
theorem reversible_noted : ∃ outcome w w', exec (noting.apply rewording) noted = (.ok outcome, w) ∧
    w.tree.read outcome.backup.path = .ok "x".toUTF8 ∧
    exec (Applier.rollback ⟨"/a"⟩ outcome.backup.path) w = (.ok (), w') ∧
    w'.tree.read ⟨"/a"⟩ = .ok "x".toUTF8 := by
  obtain ⟨outcome, w, hexec, hdisk⟩ := exec_apply_noted
  have hstep : (Call.apply noting rewording).step noted =
      ⟨.apply noting rewording, noted, .ok (some outcome), w⟩ := by
    rw [Call.step, Call.perform, Work.exec_map, hexec]
    rfl
  have hback := Disk.willing_default.takesBack
  have hcalls := Calls.start.call (.apply noting rewording) representable_noted hback fresh_noted
  have hdoes := Call.does_perform grounded_noted representable_noted hback fresh_noted
  rw [Call.perform, Work.exec_map, hexec] at hdoes
  rw [hstep] at hcalls
  cases hdoes with
  | applies _ _ hlaid _ =>
    have hp := fileAt_noted.becomes hlaid.tree
    have hgrounded := grounded_noted.becomes hlaid.tree
    obtain ⟨bytes, hbytes⟩ := hp.file
    obtain ⟨hsafe, hback⟩ := hcalls.reversible grounded_noted (List.mem_singleton_self _)
    have hread : noted.tree.read ⟨"/a"⟩ = .ok "x".toUTF8 := fileAt_noted.read grounded_noted rfl
    obtain ⟨old, hold, hcopy, -⟩ := hsafe.backed _ _ outcome rfl rfl
    obtain rfl : "x".toUTF8 = old := Except.ok.inj (hread.symm.trans hold)
    obtain ⟨old, hold, hback⟩ := hback _ _ outcome rfl rfl ⟨rfl, rfl⟩
    obtain rfl : "x".toUTF8 = old := Except.ok.inj (hread.symm.trans hold)
    obtain ⟨w', hrollback, hrestored⟩ := hback ⟨"/a"⟩ ["a"]
      (by rw [Target, knownAs_of_fileAt hgrounded hp, hp.placeFor hgrounded]) (by simp [hbytes])
      (hdisk.takes _ _)
    exact ⟨outcome, w, w', hexec, hcopy, hrollback, hrestored.read (by simp [hbytes])⟩

end Patch

end Mend
