import Mend.Proofs.Store.Written
import Mend.Proofs.Text.Lines
import Mend.Store.Basic

/-!
# Lines of the audit trail

A line that is added to the text of a trail is read after those that were there (`readTrail_append`),
as long as what follows the last line feed is blank (`Store.Closed`). What is added ends in a line
feed itself, so that the text stays closed (`closed_append`) and a text that is written line by line
says every one of them.
-/

namespace Mend

namespace Text

/-- A text is its last row after the other ones, each with its line feed. -/
theorem eq_rows (s : List Char) : ∃ ls last, rows s = ls ++ [last] ∧
    (∀ l ∈ ls, '\n' ∉ l) ∧ '\n' ∉ last ∧ s = ls.flatMap (· ++ ['\n']) ++ last := by
  obtain ⟨ls, last, hrows⟩ := (List.eq_nil_or_concat' (rows s)).resolve_left (rows_ne_nil s)
  refine ⟨ls, last, hrows, fun l hl => not_mem_of_mem_rows (by rw [hrows]; simp [hl]),
    not_mem_of_mem_rows (by rw [hrows]; simp), ?_⟩
  have hflat := flatten_pieces (s ++ ['\n'])
  rw [pieces_snoc, hrows, List.map_append, List.flatten_append, ← List.flatMap_def,
    List.map_singleton, List.flatten_singleton, ← List.append_assoc] at hflat
  exact (List.append_cancel_right hflat).symm

theorem pieces_of_not_mem {l : List Char} (h : '\n' ∉ l) :
    pieces l = if l = [] then [] else [l] := by
  induction l with
  | nil => rfl
  | cons c l ih =>
    rw [List.mem_cons, not_or] at h
    rw [pieces, if_neg (Ne.symm h.1), ih h.2]
    by_cases hl : l = [] <;> simp [hl]

end Text

namespace Store

open Text (rows pieces)

/-- What follows the last line feed of the text is blank. -/
def Closed (text : String) : Prop :=
  ∀ last ∈ (rows text.toList).getLast?, ∀ c ∈ last, Json.isSpace c = true

/-- What one line of the audit trail says, if anything. -/
def readLine (line : List Char) : Option Application :=
  if Text.isBlankLine (String.ofList line) then none
  else (Json.read? (String.ofList line)).bind Application.ofData?

theorem readTrail_eq (text : String) :
    readTrail text = (pieces text.toList).filterMap fun p => readLine (Text.stripTerminator p) := by
  rw [readTrail, Text.linesOf, List.filterMap_map]
  rfl

theorem isBlank_of_isSpace {c : Char} (h : Json.isSpace c = true) : Text.isBlank c = true := by
  simp only [Json.isSpace, Bool.or_eq_true, beq_iff_eq] at h
  rcases h with ((rfl | rfl) | rfl) | rfl <;> decide

theorem readLine_blank {line : List Char} (h : ∀ c ∈ line, Json.isSpace c = true) :
    readLine line = none := by
  refine if_pos ?_
  rw [Text.isBlankLine, String.toList_ofList, List.all_eq_true]
  exact fun c hc => isBlank_of_isSpace (h c hc)

/-- The line that is written for an attempt. -/
def lineOf (a : Application) : String := Json.compact a.toData ++ "\n"

theorem toList_compact_record (fields : List (String × Data)) :
    (Json.compact (.record fields)).toList =
      '\x7b' :: (Json.compactFields fields).toList ++ ['\x7d'] := by
  rw [Json.compact, String.toList_append, String.toList_append]
  rfl

theorem readLine_compact {a : Application} (h : a.Storable) {blank : List Char}
    (hblank : ∀ c ∈ blank, Json.isSpace c = true) :
    readLine (blank ++ (Json.compact a.toData).toList) = some a := by
  have hbrace : ¬ Text.isBlankLine (String.ofList (blank ++ (Json.compact a.toData).toList)) := by
    rw [Text.isBlankLine, String.toList_ofList, List.all_eq_true]
    intro hall
    have := hall '\x7b' (by simp [Application.toData, toList_compact_record])
    exact absurd this (by decide)
  rw [readLine, if_neg hbrace, Json.read?_compact a.plain_toData hblank, Option.bind_some,
    Application.ofData?_toData h]

theorem getLast?_compact (a : Application) :
    (Json.compact a.toData).toList.getLast? = some '\x7d' := by
  rw [Application.toData, toList_compact_record, List.getLast?_concat]

/-- A line that is added to a closed text is read after those that were there. -/
theorem readTrail_append {text : String} (hclosed : Closed text) {a : Application}
    (h : a.Storable) : readTrail (text ++ lineOf a) = readTrail text ++ [a] := by
  obtain ⟨ls, last, hrows, hls, hlast, htext⟩ := Text.eq_rows text.toList
  have hblank : ∀ c ∈ last, Json.isSpace c = true := hclosed last (by rw [hrows]; simp)
  have hline : '\n' ∉ last ++ (Json.compact a.toData).toList := by
    rw [List.mem_append, not_or]
    exact ⟨hlast, Json.newline_not_mem_compact a.plain_toData⟩
  have hend : (last ++ (Json.compact a.toData).toList).getLast? ≠ some '\r' := by
    rw [List.getLast?_append, getLast?_compact]
    simp
  have hadded : (text ++ lineOf a).toList =
      ls.flatMap (· ++ ['\n']) ++ ((last ++ (Json.compact a.toData).toList) ++ '\n' :: []) := by
    rw [String.toList_append, lineOf, String.toList_append, htext]
    simp
  have hnew : pieces (text ++ lineOf a).toList = ls.map (· ++ ['\n']) ++
      [(last ++ (Json.compact a.toData).toList) ++ ['\n']] := by
    rw [hadded, Text.pieces_lines hls, Text.pieces_line_append hline]
    rfl
  have hold : (pieces last).filterMap (fun p => readLine (Text.stripTerminator p)) = [] := by
    rw [Text.pieces_of_not_mem hlast]
    split
    · rfl
    · rw [List.filterMap_cons, Text.stripTerminator_of_not_mem hlast, readLine_blank hblank]
      rfl
  rw [readTrail_eq, readTrail_eq, hnew, htext, Text.pieces_lines hls, List.filterMap_append,
    List.filterMap_append, hold, List.append_nil, List.filterMap_cons,
    Text.stripTerminator_lf hend, readLine_compact h hblank]
  rfl

theorem closed_append (text : String) (a : Application) : Closed (text ++ lineOf a) := by
  intro last hlast
  have htoList : (text ++ lineOf a).toList =
      (text ++ Json.compact a.toData).toList ++ '\n' :: [] := by
    simp [lineOf]
  rw [htoList, Text.rows_append_newline, Text.rows, List.getLast?_concat] at hlast
  obtain rfl := Option.some.inj hlast
  simp

end Store

end Mend
