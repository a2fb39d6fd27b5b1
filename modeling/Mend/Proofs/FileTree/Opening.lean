import Mend.Proofs.FileTree

/-!
# Opening a directory

A path is found again from its steps (`Path.parts_ofParts`), so that to make a directory that is
there changes nothing (`FileTree.Opens.makeDirectories`). A file that a directory does not have is
not found, and what is added to a file of it stands at the end (`FileTree.Opens.append_file`).
-/

namespace Mend

namespace Path

/-! ## Paths and their steps -/

theorem head?_ne_of_segments {s p : List Char} {ps : List (List Char)} (h : segments s = p :: ps)
    (hp : p ≠ []) : s.head? ≠ some '/' := by
  cases s with
  | nil =>
    rw [segments, List.cons.injEq] at h
    exact absurd h.1.symm hp
  | cons c s =>
    rw [segments] at h
    split at h
    · exact absurd (List.cons.inj h).1.symm hp
    · next hc => simpa using hc

/-- A step that is read from its text. -/
def Part.Spelled (part : Part) : Prop := step? part.text.toList = some part

theorem Part.spelled_of_step? {segment : List Char} {part : Part} (h : step? segment = some part) :
    part.Spelled := by
  unfold step? at h
  split at h
  · cases h
  · next hnone =>
    split at h
    · cases h
      rfl
    · next hup =>
      cases h
      simp only [Part.Spelled, Part.text, String.toList_ofList, step?]
      rw [if_neg hnone, if_neg hup]

theorem Part.Spelled.text_ne {part : Part} (h : part.Spelled) :
    part.text.toList ≠ [] ∧ part.text.toList ≠ ['.'] := by
  constructor <;> intro htext <;> simp [Part.Spelled, htext, step?] at h

theorem Part.filterMap_spelled :
    ∀ {parts : List Part}, (∀ part ∈ parts, part.Spelled) →
      ((parts.map Part.text).map String.toList).filterMap step? = parts
  | [], _ => rfl
  | part :: parts, h => by
    have hpart : step? part.text.toList = some part := h part List.mem_cons_self
    rw [List.map_cons, List.map_cons, List.filterMap_cons, hpart,
      filterMap_spelled fun q hq => h q (List.mem_cons_of_mem part hq)]

/-- Steps after the lead are read from their texts. -/
theorem exists_spelled (p : Path) :
    ∃ front parts, p.parts = front ++ parts ∧ (∀ part ∈ parts, part.Spelled) ∧
      (front = [] ∨ front = [.root] ∨ front = [.here]) := by
  refine ⟨lead p.text.toList, (segments p.text.toList).filterMap step?, parts_eq p, ?_, ?_⟩
  · intro part hpart
    obtain ⟨segment, -, hstep⟩ := List.mem_filterMap.mp hpart
    exact Part.spelled_of_step? hstep
  · unfold lead
    split
    · simp
    · split <;> simp

/-- The path of the steps of a path has the same steps. -/
theorem parts_ofParts (p : Path) : (ofParts p.parts).parts = p.parts := by
  obtain ⟨front, parts, hparts, hspelled, hfront⟩ := exists_spelled p
  have hslash : ∀ t ∈ p.parts.map Part.text, '/' ∉ t.toList :=
    Part.no_slash fun n hn => proper_of_mem_parts hn
  by_cases hnil : p.parts = []
  · rw [hnil]
    rfl
  by_cases hroot : p.parts = [.root]
  · rw [hroot]
    rfl
  have htext : (ofParts p.parts).text = String.intercalate "/" (p.parts.map Part.text) := by
    unfold ofParts
    split
    · exact absurd ‹_› hroot
    · rfl
  have hsegments : segments (ofParts p.parts).text.toList =
      (p.parts.map Part.text).map String.toList := by
    rw [htext, segments_intercalate (by simpa using hnil) hslash]
  have hnamed := Part.filterMap_spelled hspelled
  rw [parts_eq, hsegments]
  rcases hfront with rfl | rfl | rfl
  · -- the first text is that of a step, so nothing leads
    rw [List.nil_append] at hparts
    obtain ⟨part, rest, hrest⟩ := List.exists_cons_of_ne_nil hnil
    have hne := (hspelled part (by simp [← hparts, hrest])).text_ne
    have hhead : (segments (ofParts p.parts).text.toList).head? = some part.text.toList := by
      rw [hsegments, hrest]
      rfl
    have hlead : lead (ofParts p.parts).text.toList = [] := by
      rw [hrest] at hsegments
      have := head?_ne_of_segments hsegments hne.1
      rw [hrest] at hhead
      simp [lead, hrest, this, hhead, hne.2]
    rw [hlead, hparts, hnamed, List.nil_append]
  · obtain ⟨part, rest, rfl⟩ : ∃ part rest, parts = part :: rest :=
      List.exists_cons_of_ne_nil (by rintro rfl; exact hroot hparts)
    have hlead : lead (ofParts p.parts).text.toList = [.root] := by
      rw [htext, hparts]
      simp [lead, Part.text, String.intercalate_cons_cons]
    rw [hlead, hparts, List.map_append, List.map_append, List.filterMap_append, hnamed]
    rfl
  · rw [List.singleton_append] at hparts
    have hhead : (segments (ofParts p.parts).text.toList).head? = some ['.'] := by
      rw [hsegments, hparts]
      rfl
    have hlead : lead (ofParts p.parts).text.toList = [.here] := by
      rw [hparts, List.map_cons, List.map_cons] at hsegments
      have := head?_ne_of_segments hsegments (by simp [Part.text])
      rw [hparts] at hhead
      simp [lead, hparts, this, hhead]
    rw [hlead, hparts, List.map_cons, List.map_cons, List.filterMap_cons, hnamed]
    rfl

theorem text_ofParts_ne_empty {p : Path} (h : p.parts ≠ []) :
    (ofParts p.parts).text.isEmpty = false := by
  cases htext : (ofParts p.parts).text.isEmpty with
  | false => rfl
  | true =>
    have hempty : (ofParts p.parts).text = "" := by simpa using htext
    have hparts := parts_ofParts p
    rw [parts_eq, hempty] at hparts
    exact absurd hparts.symm h

end Path

namespace FileTree

/-! ## Where steps lead on the way -/

/-- Steps lead somewhere on the way. -/
theorem Leads.exists_middle {t : FileTree} {links : Nat} {here q : Place}
    {before after : List Path.Part} (h : Leads t links here (before ++ after) q) :
    ∃ left middle, Leads t links here before middle ∧ Leads t left middle after q := by
  generalize hparts : before ++ after = parts at h
  induction h generalizing before with
  | @done links here =>
    obtain ⟨rfl, rfl⟩ := List.append_eq_nil_iff.mp hparts
    exact ⟨links, here, .done, .done⟩
  | @root links here rest q hrest ih =>
    rcases List.append_eq_cons_iff.mp hparts with ⟨rfl, rfl⟩ | ⟨before', rfl, rfl⟩
    · exact ⟨_, _, .done, .root hrest⟩
    · obtain ⟨left, middle, hfirst, hlast⟩ := ih rfl
      exact ⟨left, middle, .root hfirst, hlast⟩
  | @stay links here rest q hrest ih =>
    rcases List.append_eq_cons_iff.mp hparts with ⟨rfl, rfl⟩ | ⟨before', rfl, rfl⟩
    · exact ⟨_, _, .done, .stay hrest⟩
    · obtain ⟨left, middle, hfirst, hlast⟩ := ih rfl
      exact ⟨left, middle, .stay hfirst, hlast⟩
  | @up links here rest q hdir hrest ih =>
    rcases List.append_eq_cons_iff.mp hparts with ⟨rfl, rfl⟩ | ⟨before', rfl, rfl⟩
    · exact ⟨_, _, .done, .up hdir hrest⟩
    · obtain ⟨left, middle, hfirst, hlast⟩ := ih rfl
      exact ⟨left, middle, .up hdir hfirst, hlast⟩
  | @jump links here n rest target q hdir hlink hrest ih =>
    rcases List.append_eq_cons_iff.mp hparts with ⟨rfl, rfl⟩ | ⟨before', rfl, rfl⟩
    · exact ⟨_, _, .done, .jump hdir hlink hrest⟩
    · obtain ⟨left, middle, hfirst, hlast⟩ := ih (List.append_assoc _ _ _)
      exact ⟨left, middle, .jump hdir hlink hfirst, hlast⟩
  | @enter links here n rest e q hdir hentry hplain hrest ih =>
    rcases List.append_eq_cons_iff.mp hparts with ⟨rfl, rfl⟩ | ⟨before', rfl, rfl⟩
    · exact ⟨_, _, .done, .enter hdir hentry hplain hrest⟩
    · obtain ⟨left, middle, hfirst, hlast⟩ := ih rfl
      exact ⟨left, middle, .enter hdir hentry hplain hfirst, hlast⟩

/-- A last step to a name starts at a directory that has the name. -/
theorem Leads.entry_of_name {t : FileTree} {links : Nat} {here q : Place} {n : String}
    (h : Leads t links here [.name n] q) :
    t.get? here = some .directory ∧ (t.get? (here ++ [n])).isSome := by
  cases h with
  | jump hdir hlink => exact ⟨hdir, by rw [hlink]; rfl⟩
  | enter hdir hentry => exact ⟨hdir, by rw [hentry]; rfl⟩

/-- No step to a name that is not there. -/
theorem Leads.follow_missing {t : FileTree} {links : Nat} {here q : Place}
    {parts : List Path.Part} (h : Leads t links here parts q) (hdir : t.get? q = some .directory)
    {n : String} (hnone : t.get? (q ++ [n]) = none) :
    t.follow false links here (parts ++ [.name n]) = .error .notFound := by
  induction h with
  | done => rw [List.nil_append, FileTree.follow, if_pos hdir, hnone]; rfl
  | root _ ih => rw [List.cons_append, FileTree.follow, ih hdir hnone]
  | stay _ ih => rw [List.cons_append, FileTree.follow, ih hdir hnone]
  | up hup _ ih => rw [List.cons_append, FileTree.follow, if_pos hup, ih hdir hnone]
  | jump hjump hlink _ ih =>
    rw [List.cons_append, FileTree.follow, if_pos hjump, hlink, ← ih hdir hnone]
    rw [List.append_assoc]
  | @enter links here m rest e q henter hstep hother _ ih =>
    rw [List.cons_append, FileTree.follow, if_pos henter, hstep, ← ih hdir hnone]
    cases e with
    | link p => exact absurd rfl (hother p)
    | file | directory => rfl

namespace Opens

variable {t : FileTree} {dir : Path} {place : Place} {n : String}

/-! ## The directory itself -/

theorem resolve_ofParts (h : t.Opens dir place) (hparts : dir.parts ≠ []) :
    t.resolve (.ofParts dir.parts) = .ok place := by
  rw [FileTree.resolve, Path.text_ofParts_ne_empty hparts, Path.parts_ofParts]
  exact h.leads.follow false

/-- A directory that is there is not made. -/
theorem makeDirectory (h : t.Opens dir place) (hparts : dir.parts ≠ []) :
    t.makeDirectory (.ofParts dir.parts) = .error .alreadyExists := by
  have hplace : ∃ q, t.placeFor (.ofParts dir.parts) = .ok q ∧ (t.get? q).isSome := by
    rw [FileTree.placeFor, Path.parts_ofParts]
    split
    · next n hlast =>
      obtain ⟨front, hfront⟩ := List.getLast?_eq_some_iff.mp hlast
      have hleads := h.leads
      rw [hfront] at hleads
      obtain ⟨left, middle, hfirst, hname⟩ := hleads.exists_middle
      obtain ⟨hdir, hentry⟩ := hname.entry_of_name
      refine ⟨middle ++ [n], ?_, hentry⟩
      rw [hfront, List.dropLast_concat]
      simp only [hfirst.follow false]
      exact if_pos hdir
    · exact ⟨place, h.resolve_ofParts hparts, by rw [h.directory]; rfl⟩
  obtain ⟨q, hq, hsome⟩ := hplace
  simp only [FileTree.makeDirectory, hq, bind, Except.bind]
  exact if_pos hsome

/-- To make a directory that is there changes nothing. -/
theorem makeDirectories (h : t.Opens dir place) : t.makeDirectories dir = .ok t := by
  rw [FileTree.makeDirectories, makeDirectoriesOf]
  split
  · rfl
  · next hparts =>
    have hdir : t.isDirectory (.ofParts dir.parts) = true := by
      simp only [FileTree.isDirectory, lookup, h.resolve_ofParts hparts, bind, Except.bind,
        h.directory]
      rfl
    simp only [h.makeDirectory hparts, hdir]
    rfl

/-! ## Its files -/

/-- A file that the directory does not have is not found. -/
theorem read_missing (h : t.Opens dir place) (hn : Path.Proper n)
    (hnone : t.get? (place ++ [n]) = none) : t.read (dir.join n) = .error .notFound := by
  have hresolve : t.resolve (dir.join n) = .error .notFound := by
    rw [FileTree.resolve, Path.text_join_ne_empty dir hn, Path.parts_join dir hn]
    exact h.leads.follow_missing h.directory hnone
  simp only [FileTree.read, lookup, hresolve, bind, Except.bind]

theorem readText_missing (h : t.Opens dir place) (hn : Path.Proper n)
    (hnone : t.get? (place ++ [n]) = none) : t.readText (dir.join n) = .error .notFound := by
  simp only [FileTree.readText, h.read_missing hn hnone, bind, Except.bind]

theorem readText (h : t.Opens dir place) (hn : Path.Proper n) {text : String}
    (htext : t.get? (place ++ [n]) = some (.file text.toUTF8)) :
    t.readText (dir.join n) = .ok text :=
  readText_of_read (h.read hn htext)

/-- Bytes are put into a file that the directory does not have. -/
theorem append_missing (h : t.Opens dir place) (hn : Path.Proper n)
    (hnone : t.get? (place ++ [n]) = none) (bytes : ByteArray) :
    t.append (dir.join n) bytes = .ok (t.set (place ++ [n]) (.file bytes)) := by
  simp only [FileTree.append, destination, Path.text_join_ne_empty dir hn, Path.parts_join dir hn,
    h.leads.follow_concat h.directory hnone, bind, Except.bind, Bool.false_eq_true, if_false, hnone]
  rfl

/-- Bytes are added at the end of a file of the directory. -/
theorem append_file (h : t.Opens dir place) (hn : Path.Proper n) {old : ByteArray}
    (hold : t.get? (place ++ [n]) = some (.file old)) (bytes : ByteArray) :
    t.append (dir.join n) bytes = .ok (t.set (place ++ [n]) (.file (old ++ bytes))) := by
  have hfollow := (h.leads.concat h.directory hold fun p hp => by cases hp).follow true
  simp only [FileTree.append, destination, Path.text_join_ne_empty dir hn, Path.parts_join dir hn,
    hfollow, bind, Except.bind, Bool.false_eq_true, if_false, hold]
  rfl

end Opens

end FileTree

end Mend
