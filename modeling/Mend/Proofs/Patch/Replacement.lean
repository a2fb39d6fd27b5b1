import Mend.Proofs.Patch.Commute
import Mend.Proofs.Text.Padding

/-!
# What a candidate replaces

A candidate that was made from a text replaces the lines that it was made from and no others, even
where the same lines stand elsewhere in the text (`patched_synthesized`): windows, templates, the
locator and the splice all count lines alike, whatever the lines end in. But for the carriage returns
at their ends, the lines in the text before and after are those of the candidate, and what stands
around them is the same (`Patch.exists_placed`).
-/

namespace Mend

open Text Mask

namespace Patch

/-- Lines with terminators, written out. -/
theorem flatten_terminated (eol last : List Char) :
    ∀ {ls : List (List Char)}, ls ≠ [] →
      (terminated eol last ls).flatten = List.intercalate eol ls ++ last
  | [], h => absurd rfl h
  | [l], _ => by simp [terminated]
  | l :: m :: ls, _ => by
    have ih := flatten_terminated eol last (List.cons_ne_nil m ls)
    rw [terminated_cons _ _ _ (List.cons_ne_nil _ _), List.flatten_cons, ih]
    simp [List.intercalate]

/-- A text is made of the lines before a place, of the place up to the terminator of its last line,
and of the rest. -/
theorem eq_append_of_pieces {content last : List Char} {front place back : List (List Char)}
    (h : Text.pieces content = front ++ (place ++ [last]) ++ back) :
    content = front.flatten ++ (place.flatten ++ Text.stripTerminator last ++
      (terminator last ++ back.flatten)) := by
  have hlast := stripTerminator_append
    (Text.isPiece_of_mem_pieces (show last ∈ Text.pieces content by simp [h]))
  conv_lhs => rw [← Text.flatten_pieces content, h]
  conv_lhs => rw [← hlast]
  simp

/-- New code that fits into a text is put in the place of the old code, and all other lines stay. -/
theorem patched_of_fitsAt (locator : Locator) (language : Language) {content : List Char} {f : Fix}
    (h : FitsAt content f.line f.replacedCode.toList f.suggestedCode.toList) :
    ∃ front place last back, Text.pieces content = front ++ (place ++ [last]) ++ back ∧
      front.length + 1 = f.line ∧
      (place ++ [last]).map Text.stripTerminator = Text.rows f.replacedCode.toList ∧
      patched locator content f language =
        (front.flatten ++ (List.intercalate (Text.lineEnding content).toList
          (Text.rows f.suggestedCode.toList) ++ terminator last) ++ back.flatten, .exact) := by
  obtain ⟨front, place, last, back, hpieces, hplace, hfront⟩ :=
    exists_place (Text.rows_ne_nil f.replacedCode.toList) h.lines
  have hpos := h.line_pos
  refine ⟨front, place, last, back, hpieces, by omega, hplace, ?_⟩
  rw [patched_eq_spliced language hpieces hplace (locate_of_pieces locator hfront hpieces hplace),
    List.flatten_append, List.flatten_append, flatten_terminated _ _ (Text.rows_ne_nil _)]

end Patch

/-! ## Lines in their place -/

/-- The text before a line. -/
def Text.above (content : List Char) (line : Nat) : List Char :=
  ((pieces content).take (line - 1)).flatten

theorem Text.above_of_pieces {content : List Char} {front back : List (List Char)} {line : Nat}
    (h : pieces content = front ++ back) (hline : front.length + 1 = line) :
    above content line = front.flatten := by
  rw [above, h, ← hline, Nat.add_sub_cancel, List.take_left]

/-- What ends a line is no part of a mark that begins in the line. -/
theorem Text.ahead_terminator {content last : List Char} {front back : List (List Char)}
    (h : pieces content = front ++ [last] ++ back) :
    Ahead (Patch.terminator last ++ back.flatten) := by
  have hmem : last ∈ pieces content := by simp [h]
  rcases isPiece_of_mem_pieces hmem with hended | ⟨hplain, -⟩
  · rcases Patch.isEnding_terminator hended with hend | hend
    · rw [hend]
      exact ahead_newline _
    · rw [hend]
      exact ahead_cons (by decide) (by simp)
  · rw [List.append_assoc, List.singleton_append] at h
    have hback := eq_nil_of_not_ended h hplain
    rw [Patch.terminator_of_not_mem hplain, hback]
    exact ahead_nil

namespace Patch

variable {language : Language} {content : List Char} {front place back : List (List Char)}
  {last : List Char}

/-- A line that ends in a carriage return and a line feed. -/
theorem crlf_suffix_of_terminator {p : List Char} (hp : IsPiece p)
    (heol : terminator p = ['\r', '\n']) : stripTerminator p ++ ['\r', '\n'] = p :=
  heol ▸ stripTerminator_append hp

/-- Lines of a text, and the same lines as a window shows them. -/
theorem sameLines_pieces (h : pieces content = front ++ (place ++ [last]) ++ back)
    (hends : ∀ p ∈ place, terminator p = ['\r', '\n'] →
      (stripTerminator p).getLast? ≠ some '\\') :
    SameLines (place.flatten ++ stripTerminator last)
      (Window.joined ((place ++ [last]).map stripTerminator)) := by
  have hmem : ∀ p ∈ place ++ [last], p ∈ pieces content := fun p hp => by
    rw [h]
    exact List.mem_append_left _ (List.mem_append_right _ hp)
  have hended : ∀ p ∈ place, Ended p := fun p hp => by
    rw [List.append_assoc, List.append_assoc, ← List.append_assoc] at h
    exact ended_of_pieces_append h (by simp) p (List.mem_append_right _ hp)
  have hplace : (place.map fun p => (stripTerminator p, terminator p)).map (fun x => x.1 ++ x.2) =
      place := by
    rw [List.map_map]
    refine (List.map_congr_left fun p hp => ?_).trans (List.map_id place)
    exact stripTerminator_append (isPiece_of_mem_pieces (hmem p (List.mem_append_left _ hp)))
  have hsame := @SameLines.of_ends (stripTerminator last)
    (not_mem_stripTerminator (isPiece_of_mem_pieces (hmem last (by simp))))
    (place.map fun p => (stripTerminator p, terminator p)) (by
      intro x hx
      obtain ⟨p, hp, rfl⟩ := List.mem_map.mp hx
      exact (isEnding_terminator (hended p hp)).imp_right fun heol => ⟨heol, hends p hp heol⟩)
  rw [hplace, List.map_map] at hsame
  rwa [List.map_append, List.map_singleton]

theorem intercalate_concat (eol last : List Char) : ∀ ls : List (List Char),
    List.intercalate eol (ls ++ [last]) = (ls.map (· ++ eol)).flatten ++ last
  | [] => by simp
  | [l] => by simp [List.intercalate]
  | l :: m :: ls => by
    have ih := intercalate_concat eol last (m :: ls)
    rw [List.map_cons, List.flatten_cons, List.append_assoc, ← ih]
    simp [List.intercalate]

/-- A text whose lines are joined by a line ending. -/
theorem sameLines_rows {eol : List Char} (heol : IsEnding eol) (s : List Char)
    (h : eol = ['\r', '\n'] → ∀ l ∈ (rows s).dropLast, l.getLast? ≠ some '\\') :
    SameLines (List.intercalate eol (rows s)) s := by
  have hrows := List.dropLast_append_getLast (rows_ne_nil s)
  have hsame := @SameLines.of_ends ((rows s).getLast (rows_ne_nil s))
    (not_mem_of_mem_rows (List.getLast_mem _)) ((rows s).dropLast.map (·, eol)) (by
      intro x hx
      obtain ⟨l, hl, rfl⟩ := List.mem_map.mp hx
      exact heol.imp_right fun heol => ⟨heol, h heol l hl⟩)
  rw [List.map_map, List.map_map] at hsame
  conv at hsame =>
    rhs
    rw [show (Prod.fst ∘ fun l : List Char => (l, eol)) = id from rfl, List.map_id, hrows, joined_rows]
  rw [← hrows, intercalate_concat]
  exact hsame

/-- Whole lines of a file, the lines that a fix replaces and those that it puts there, and the rest
of the file. -/
structure Placed (content text : List Char) (f : Fix) (ps : List (List Char))
    (old new rest : List Char) : Prop where
  content_eq : content = ps.flatten ++ (old ++ rest)
  text_eq : text = ps.flatten ++ (new ++ rest)
  ended : ∀ p ∈ ps, Ended p
  line_eq : ps.length + 1 = f.line
  above_eq : above content f.line = ps.flatten
  ahead : Ahead rest
  sameLines_old : SameLines old f.replacedCode.toList
  sameLines_new : SameLines new f.suggestedCode.toList

/-- A fix that fits into a file is placed there, if in a file with carriage returns no line of it but
the last of the old and of the new ones ends in a backslash. -/
theorem exists_placed (locator : Locator) (language : Language) {f : Fix}
    (hfits : FitsAt content f.line f.replacedCode.toList f.suggestedCode.toList)
    (hends : ['\r', '\n'] <:+: content → ∀ code ∈ [f.replacedCode, f.suggestedCode],
      ∀ l ∈ (rows code.toList).dropLast, l.getLast? ≠ some '\\') :
    ∃ text ps old new rest, patched locator content f language = (text, .exact) ∧
      Placed content text f ps old new rest := by
  obtain ⟨front, place, last, back, hpieces, hfront, hplace, hpatched⟩ :=
    patched_of_fitsAt locator language hfits
  have hsplit := hpieces
  rw [List.append_assoc] at hsplit
  rw [List.append_assoc, List.append_assoc] at hpatched
  refine ⟨_, front, _, _, _, hpatched, {
    content_eq := eq_append_of_pieces hpieces
    text_eq := rfl
    ended := ended_of_pieces_append hsplit (by simp)
    line_eq := hfront
    above_eq := above_of_pieces hsplit hfront
    ahead := ahead_terminator
      (show pieces content = (front ++ place) ++ [last] ++ back by simp [hpieces])
    sameLines_old := ?_
    sameLines_new := ?_ }⟩
  · have hsame := sameLines_pieces hpieces fun p hp heol => by
      have hpiece : p ∈ pieces content := by simp [hpieces, hp]
      have hcrlf := crlf_infix_iff.mpr ⟨p, hpiece, _,
        crlf_suffix_of_terminator (isPiece_of_mem_pieces hpiece) heol⟩
      refine hends hcrlf _ List.mem_cons_self _ ?_
      rw [← hplace, List.map_append, List.map_singleton, List.dropLast_concat]
      exact List.mem_map_of_mem hp
    rwa [hplace, joined_rows] at hsame
  · refine sameLines_rows (isEnding_lineEnding content) f.suggestedCode.toList fun heol =>
      hends ?_ _ (by simp)
    by_contra hcrlf
    rw [lineEnding_of_not_crlf hcrlf] at heol
    exact absurd heol (by decide)

namespace Placed

variable {text old new rest : List Char} {f : Fix} {ps : List (List Char)}

/-- The balance of the file before and after is that of the lines of the fix in their place. -/
theorem balance_eq (h : Placed content text f ps old new rest) :
    Balance.of language content =
        Balance.of language (ps.flatten ++ (f.replacedCode.toList ++ rest)) ∧
      Balance.of language text =
        Balance.of language (ps.flatten ++ (f.suggestedCode.toList ++ rest)) := by
  rw [h.text_eq, h.content_eq]
  exact ⟨(SameLines.after_lines h.ended (h.sameLines_old.append rest)).of_eq,
    (SameLines.after_lines h.ended (h.sameLines_new.append rest)).of_eq⟩

end Placed

end Patch

namespace Candidate

/-- Whatever the issue, a candidate for it says which lines of the text it replaces. On that text its
fix is placed exactly there: the suggested lines, joined by the text's line ending and ended like
the last replaced line, stand in the place of the replaced lines, between the lines before and after
them. -/
theorem patched_synthesized {kind : IssueKind} {platform : Platform} {column : Option Nat}
    {path : Path} {content : String} {line before after : Nat} {c : Candidate}
    (h : synthesize kind platform column (Window.of path content line before after) = .ok (some c))
    (issue : Issue) (options : Diff.Options) (id : String) (now : Time) (locator : Patch.Locator)
    (language : Language) :
    ∃ front place last back,
      Text.pieces content.toList = front ++ (place ++ [last]) ++ back ∧
      front.length + 1 = c.line ∧
      (place ++ [last]).map Text.stripTerminator = Text.rows c.replacedCode.toList ∧
      Patch.patched locator content.toList (c.toFix issue options id now) language =
        (front.flatten ++ (List.intercalate (Text.lineEnding content.toList).toList
          (Text.rows c.suggestedCode.toList) ++ Patch.terminator last) ++ back.flatten, .exact) := by
  have hfits : FitsAt content.toList c.line c.replacedCode.toList c.suggestedCode.toList :=
    @fitsAt_of_forIssue ⟨before, after⟩
      { issue.toFinding with kind, platform, column, file := path, line } content c h
  exact Patch.patched_of_fitsAt locator language (f := c.toFix issue options id now) hfits

/-- The second of two equal lines is guarded, in a text whose lines end in two ways and whose last
line does not end at all. -/
theorem patched_synthesized_mixed_endings :
    let text := "setState(go);\nsetState(go);\r\ndone();"
    ∃ front place last back,
      Text.pieces text.toList = front ++ (place ++ [last]) ++ back ∧
      front.length + 1 = 2 ∧
      (place ++ [last]).map Text.stripTerminator = Text.rows "setState(go);".toList ∧
      Patch.patched {} text.toList (Patch.guardUpdate 2) .dart =
        (front.flatten ++ (List.intercalate (Text.lineEnding text.toList).toList
          (Text.rows "if (!mounted) return;\nsetState(go);".toList) ++ Patch.terminator last)
            ++ back.flatten, .exact) := by
  intro text
  have hmade : synthesize .raceCondition .flutter (some 1) (Window.of ⟨"/app/a.dart"⟩ text 2 3 12) =
      .ok (some (Patch.guardCandidate 2)) := by decide
  exact patched_synthesized hmade (Patch.lateUpdate 2) {} "" ⟨0, 0⟩ {} .dart

end Candidate

end Mend
