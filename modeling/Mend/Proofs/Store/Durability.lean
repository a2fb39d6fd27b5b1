import Mend.Proofs.Store.Session

/-!
# Lines that last

Lines that are added to the audit trail stand at the end of its file, whatever was there
(`exec_reopened`). They are read after those that could be read before when the file is empty or
its last line is ended (`trail_reopened`). A line that is torn, as a crash in the middle of a write
leaves it, swallows the next one (`not_trail_reopened`).
-/

namespace Mend

namespace Store

open Work (exec)

/-- The text of lines that are added one after the other. -/
def linesOf (as : List Application) : String := String.join (as.map lineOf)

theorem exec_appends {dir : Path} {place : Place} {issues : List Issue} {fixes : List Fix} :
    ∀ (as : List Application) {w : Workspace} {r : Records} {text : String},
      w.store = ⟨some dir, r⟩ → Holds w.tree dir place issues fixes text → ∃ w',
        exec (forM as append) w = (.ok (), w') ∧ w'.disk = w.disk ∧
        w'.store = ⟨some dir, { r with applications := r.applications ++ as }⟩ ∧
        Holds w'.tree dir place issues fixes (text ++ linesOf as)
  | [], w, r, text, hstore, h => by
    refine ⟨w, rfl, rfl, by rw [hstore, List.append_nil], ?_⟩
    simpa [linesOf] using h
  | a :: as, w, r, text, hstore, h => by
    obtain ⟨w₁, hexec, hdisk₁, hstore₁, h₁⟩ := exec_append hstore h a
    obtain ⟨w₂, hexec', hdisk₂, hstore₂, h₂⟩ := exec_appends as hstore₁ h₁
    refine ⟨w₂, ?_, hdisk₂.trans hdisk₁, ?_, ?_⟩
    · rw [List.forM_cons, Work.exec_bind, hexec]
      exact hexec'
    · rw [hstore₂, Records.append, List.append_assoc]
      rfl
    · simpa [linesOf, String.append_assoc] using h₂

/-- A store is opened, lines are added, and the store is closed and opened again: the lines are at
the end of the text that was there. -/
theorem exec_reopened {w : Workspace} {dir : Path} {place : Place} {issues : List Issue}
    {fixes : List Fix} {text : String} (h : Holds w.tree dir place issues fixes text)
    (hdisk : Accepts w.disk dir) (hissues : ∀ i ∈ issues, i.Storable)
    (hfixes : ∀ f ∈ fixes, f.Storable) (as : List Application) : ∃ w₁ w₂ w₃,
    exec (openAt dir) w = (.ok (), w₁) ∧ (exec (trail none) w₁).1 = .ok (readTrail text) ∧
      exec (forM as append) w₁ = (.ok (), w₂) ∧
      exec (do close; openAt dir; trail none) w₂ = (.ok (readTrail (text ++ linesOf as)), w₃) := by
  have hlook : ∀ {w' : Workspace} {lines : List Application},
      w'.store = ⟨some dir, ⟨issues, fixes, lines⟩⟩ → exec (trail none) w' = (.ok lines, w') := by
    intro w' lines hstore
    rw [trail, Work.exec_bind, exec_current, hstore]
    simp [Records.trail]
  obtain ⟨w₁, hopen, hdisk₁, hstore₁, h₁⟩ := exec_openAt h hissues hfixes
  obtain ⟨w₂, happend, hdisk₂, hstore₂, h₂⟩ := exec_appends as hstore₁ h₁
  have haccepts : Accepts w₂.disk dir := (hdisk₂.trans hdisk₁) ▸ hdisk
  obtain ⟨w₃, hclose, -, -, h₃⟩ := exec_close hstore₂ haccepts h₂
  obtain ⟨w₄, hreopen, -, hstore₄, -⟩ := exec_openAt h₃ hissues hfixes
  refine ⟨w₁, w₂, w₄, hopen, by rw [hlook hstore₁], happend, ?_⟩
  rw [Work.exec_bind, hclose]
  simp only
  rw [Work.exec_bind, hreopen]
  exact hlook hstore₄

/-- Lines that are added to a closed text are read after those that were there. -/
theorem readTrail_linesOf : ∀ {as : List Application}, (∀ a ∈ as, a.Storable) →
    ∀ {text : String}, Closed text → readTrail (text ++ linesOf as) = readTrail text ++ as
  | [], _, text, _ => by simp [linesOf]
  | a :: as, has, text, hclosed => by
    have hrest := readTrail_linesOf (fun b hb => has b (List.mem_cons_of_mem a hb))
      (closed_append text a)
    rw [readTrail_append hclosed (has a List.mem_cons_self)] at hrest
    have hlines : linesOf (a :: as) = lineOf a ++ linesOf as := by simp [linesOf]
    rw [hlines, ← String.append_assoc, hrest, List.append_assoc, List.singleton_append]

/-- The audit trail of a store that is closed and opened again is what could be read at first and
then every line that was added, where nothing but blanks follows the last line feed at first. The
moments of records and lines are those that texts can say, for another one would be read back as a
later one (`Time.read?_text_carry`). -/
theorem trail_reopened {w : Workspace} {dir : Path} {place : Place} {issues : List Issue}
    {fixes : List Fix} {text : String} (h : Holds w.tree dir place issues fixes text)
    (hdisk : Accepts w.disk dir) (hissues : ∀ i ∈ issues, i.Storable)
    (hfixes : ∀ f ∈ fixes, f.Storable)
    (hclosed : Closed text) {as : List Application} (has : ∀ a ∈ as, a.Storable) : ∃ w₁ w₂ w₃,
    exec (openAt dir) w = (.ok (), w₁) ∧ (exec (trail none) w₁).1 = .ok (readTrail text) ∧
      exec (forM as append) w₁ = (.ok (), w₂) ∧
      exec (do close; openAt dir; trail none) w₂ = (.ok (readTrail text ++ as), w₃) := by
  obtain ⟨w₁, w₂, w₃, hopen, hfirst, happend, hlast⟩ := exec_reopened h hdisk hissues hfixes as
  rw [readTrail_linesOf has hclosed] at hlast
  exact ⟨w₁, w₂, w₃, hopen, hfirst, happend, hlast⟩

/-- A directory with an audit trail. -/
def trailed (text : String) : Workspace :=
  { tree := { entries := [(["s"], .directory), (["s", "applications.jsonl"], .file text.toUTF8)] } }

theorem holds_trailed (text : String) : Holds (trailed text).tree ⟨"/s"⟩ ["s"] [] [] text where
  opens := by
    have hparts : (⟨"/s"⟩ : Path).parts = [.root, .name "s"] := by decide
    constructor
    · rw [hparts]
      exact .root (.enter (e := .directory) rfl rfl (by simp) .done)
    · rfl
  issues := Or.inr ⟨rfl, rfl⟩
  fixes := Or.inr ⟨rfl, rfl⟩
  trail := Or.inl rfl
  lock := fun e he => by cases he

/-- A line that cannot be read, which is ended, and blanks after it. -/
theorem closed_unreadable : Closed "{}\n \t" := by
  have hlast : (Text.rows "{}\n \t".toList).getLast? = some [' ', '\t'] := by decide
  rw [Closed, hlast]
  rintro _ ⟨⟩
  exact List.all_eq_true.mp (by decide)

/-- A line that cannot be read is skipped when it is ended; the lines after it are read. -/
theorem trail_reopened_unreadable : ∃ w₁ w₂ w₃,
    exec (openAt ⟨"/s"⟩) (trailed "{}\n \t") = (.ok (), w₁) ∧
      (exec (trail none) w₁).1 = .ok (readTrail "{}\n \t") ∧
      exec (forM [failedAttempt, failedAttempt] append) w₁ = (.ok (), w₂) ∧
      exec (do close; openAt ⟨"/s"⟩; trail none) w₂ =
        (.ok (readTrail "{}\n \t" ++ [failedAttempt, failedAttempt]), w₃) :=
  trail_reopened (holds_trailed _) (fun _ _ _ _ _ => rfl) (by simp) (by simp) closed_unreadable
    (by simp [storable_failedAttempt])

/-- A line that breaks off after the name of its first field. -/
def tornLine (name : String) : String := "\x7b" ++ Json.quote name ++ ":"

/-- The next line becomes the value of the field, and the record is never closed. -/
theorem readTrail_tornLine_append (name : String) (a : Application) :
    readTrail (tornLine name ++ lineOf a) = [] := by
  have htorn : (tornLine name ++ lineOf a).toList =
      ('\x7b' :: ((Json.quote name).toList ++ ':' :: (Json.compact a.toData).toList)) ++
        '\n' :: [] := by
    simp [tornLine, lineOf]
  have hline : '\n' ∉ '\x7b' :: ((Json.quote name).toList ++
      ':' :: (Json.compact a.toData).toList) := by
    simp [Json.newline_not_mem_quote, Json.newline_not_mem_compact a.plain_toData]
  have hread : readLine ('\x7b' :: ((Json.quote name).toList ++
      ':' :: (Json.compact a.toData).toList)) = none := by
    rw [readLine, Json.read?_unclosed name a.plain_toData, Option.bind_none, ite_self]
  have hend : ('\x7b' :: ((Json.quote name).toList ++
      ':' :: (Json.compact a.toData).toList)).getLast? ≠ some '\r' := by
    rw [List.append_cons, ← List.cons_append, List.getLast?_append, getLast?_compact]
    simp
  rw [readTrail_eq, htorn, Text.pieces_line_append hline, List.filterMap_cons,
    Text.stripTerminator_lf hend, hread]
  simp [Text.pieces]

/-- A torn line swallows the line that is added after it, although nothing fails. -/
theorem not_trail_reopened : ∃ w₁ w₂ w₃,
    exec (openAt ⟨"/s"⟩) (trailed (tornLine "fix_id")) = (.ok (), w₁) ∧
      exec (forM [failedAttempt] append) w₁ = (.ok (), w₂) ∧
      exec (do close; openAt ⟨"/s"⟩; trail none) w₂ = (.ok [], w₃) ∧
      [] ≠ readTrail (tornLine "fix_id") ++ [failedAttempt] := by
  obtain ⟨w₁, w₂, w₃, hopen, -, happend, hlast⟩ :=
    exec_reopened (holds_trailed (tornLine "fix_id")) (fun _ _ _ _ _ => rfl) (by simp) (by simp)
      [failedAttempt]
  have hlines : linesOf [failedAttempt] = lineOf failedAttempt := by simp [linesOf]
  rw [hlines, readTrail_tornLine_append] at hlast
  exact ⟨w₁, w₂, w₃, hopen, happend, hlast, by simp⟩

end Store

end Mend
