import Mend.Proofs.Patch.Placement

/-!
# Splicing lines

Lines that are put in the place of others take over the terminator of the last of these and, before
that, the text's own line ending (`spliceLines_append`). They end as lines do (`ended_terminated`),
so that they are lines of the new text again, and all others stay as they were.
-/

namespace Mend.Patch

/-! ## Terminators -/

theorem terminator_crlf (l : List Char) : terminator (l ++ ['\r', '\n']) = ['\r', '\n'] := by
  rw [terminator, Text.stripTerminator_crlf, List.drop_left]

theorem terminator_lf {l : List Char} (h : l.getLast? ≠ some '\r') :
    terminator (l ++ ['\n']) = ['\n'] := by
  rw [terminator, Text.stripTerminator_lf h, List.drop_left]

theorem terminator_of_not_mem {l : List Char} (h : '\n' ∉ l) : terminator l = [] := by
  rw [terminator, Text.stripTerminator_of_not_mem h, List.drop_length]

/-- A line is what it is without its terminator, and the terminator. -/
theorem stripTerminator_append {p : List Char} (h : Text.IsPiece p) :
    Text.stripTerminator p ++ terminator p = p := by
  rcases h with ⟨l, -, rfl⟩ | ⟨hp, -⟩
  · by_cases hl : l.getLast? = some '\r'
    · obtain ⟨front, rfl⟩ := List.getLast?_eq_some_iff.mp hl
      rw [List.append_assoc, List.singleton_append, Text.stripTerminator_crlf, terminator_crlf]
    · rw [Text.stripTerminator_lf hl, terminator_lf hl]
  · rw [Text.stripTerminator_of_not_mem hp, terminator_of_not_mem hp, List.append_nil]

theorem terminated_cons (eol last l : List Char) {ls : List (List Char)} (h : ls ≠ []) :
    terminated eol last (l :: ls) = (l ++ eol) :: terminated eol last ls := by
  cases ls with
  | nil => exact absurd rfl h
  | cons m ls =>
    rw [terminated]
    exact List.cons_ne_nil _ _

theorem length_terminated (eol last : List Char) :
    ∀ ls : List (List Char), (terminated eol last ls).length = ls.length
  | [] => rfl
  | [l] => rfl
  | l :: m :: ls => by
    rw [terminated_cons _ _ _ (List.cons_ne_nil _ _), List.length_cons,
      length_terminated eol last (m :: ls)]
    rfl

/-- The two ways to end a line. -/
def IsEnding (eol : List Char) : Prop :=
  eol = ['\n'] ∨ eol = ['\r', '\n']

theorem isEnding_lineEnding (s : List Char) : IsEnding (Text.lineEnding s).toList := by
  unfold Text.lineEnding
  split
  · exact Or.inr rfl
  · exact Or.inl rfl

theorem isEnding_terminator {p : List Char} (h : Text.Ended p) : IsEnding (terminator p) := by
  obtain ⟨l, -, rfl⟩ := h
  by_cases hl : l.getLast? = some '\r'
  · obtain ⟨front, rfl⟩ := List.getLast?_eq_some_iff.mp hl
    rw [List.append_assoc, List.singleton_append, terminator_crlf]
    exact Or.inr rfl
  · rw [terminator_lf hl]
    exact Or.inl rfl

theorem ended_append {eol : List Char} (heol : IsEnding eol) {l : List Char} (hl : '\n' ∉ l) :
    Text.Ended (l ++ eol) := by
  rcases heol with rfl | rfl
  · exact ⟨l, hl, rfl⟩
  · exact ⟨l ++ ['\r'], by simp [hl], by simp⟩

theorem ended_terminated {eol last : List Char} (heol : IsEnding eol) (hlast : IsEnding last) :
    ∀ {ls : List (List Char)}, (∀ l ∈ ls, '\n' ∉ l) → ∀ p ∈ terminated eol last ls, Text.Ended p
  | [], _, p, hp => absurd hp List.not_mem_nil
  | [l], h, p, hp => by
    rw [terminated, List.mem_singleton] at hp
    exact hp ▸ ended_append hlast (h l List.mem_cons_self)
  | l :: m :: ls, h, p, hp => by
    rw [terminated_cons _ _ _ (List.cons_ne_nil _ _), List.mem_cons] at hp
    rcases hp with rfl | hp
    · exact ended_append heol (h l List.mem_cons_self)
    · exact ended_terminated heol hlast (fun k hk => h k (List.mem_cons_of_mem l hk)) p hp

/-- The rows of a text, each ended by a line feed but the last, spell the text. -/
theorem flatten_terminated_rows (last : List Char) :
    ∀ s : List Char, (terminated ['\n'] last (Text.rows s)).flatten = s ++ last
  | [] => by simp [Text.rows, terminated]
  | c :: s => by
    have ih := flatten_terminated_rows last s
    obtain ⟨r, rs, hs⟩ := List.exists_cons_of_ne_nil (Text.rows_ne_nil s)
    rw [Text.rows]
    split
    · next hc =>
      rw [terminated_cons _ _ _ (Text.rows_ne_nil s), List.flatten_cons, ih, hc]
      rfl
    · rw [hs] at ih ⊢
      cases rs with
      | nil =>
        simp only [terminated, List.flatten_singleton] at ih ⊢
        rw [List.cons_append, ih]
        rfl
      | cons m ms =>
        rw [terminated_cons _ _ _ (List.cons_ne_nil _ _), List.flatten_cons] at ih ⊢
        rw [List.cons_append, List.cons_append, ih]
        rfl

/-! ## The new text -/

/-- A part of a list that is not empty has a last element, and lists before and after it. -/
theorem exists_part_at {α : Type} {l : List α} {start n : Nat} (hpos : 0 < n)
    (h : start + n ≤ l.length) :
    ∃ front place last back, l = front ++ (place ++ [last]) ++ back ∧ front.length = start ∧
      (l.drop start).take n = place ++ [last] ∧ (place ++ [last]).length = n := by
  have hlen : ((l.drop start).take n).length = n := by
    rw [List.length_take, List.length_drop]
    omega
  obtain ⟨place, last, hplace⟩ := (List.eq_nil_or_concat ((l.drop start).take n)).resolve_left
    (List.ne_nil_of_length_pos (by omega))
  have hback := List.take_append_drop n (l.drop start)
  rw [List.concat_eq_append] at hplace
  rw [hplace] at hback hlen
  refine ⟨l.take start, place, last, (l.drop start).drop n, ?_, ?_, hplace, hlen⟩
  · rw [List.append_assoc, hback, List.take_append_drop]
  · rw [List.length_take]
    omega

/-- Splicing in terms of the lines before, in and after the place. -/
theorem spliceLines_append {content : List Char} {front back : List (List Char)}
    {place : List (List Char)} {p : List Char}
    (h : Text.pieces content = front ++ (place ++ [p]) ++ back) (ls : List (List Char)) :
    spliceLines content front.length (place ++ [p]).length ls =
      (front ++ terminated (Text.lineEnding content).toList (terminator p) ls ++ back).flatten := by
  have hlast : (Text.pieces content)[front.length + (place ++ [p]).length - 1]? = some p := by
    rw [h, List.getElem?_append_left (by simp), List.getElem?_append_right (by simp)]
    simp
  have htake : (Text.pieces content).take front.length = front := by
    rw [h, List.append_assoc, List.take_left]
  have hdrop : (Text.pieces content).drop (front.length + (place ++ [p]).length) = back := by
    rw [h, ← List.length_append, List.drop_left]
  unfold spliceLines
  simp only [hlast, htake, hdrop]

/-- A fix that is located on the lines that it replaces puts its suggestion between the lines before
and after them. -/
theorem patched_eq_spliced {locator : Locator} {content : List Char} {fix : Fix}
    (language : Language) {front place back : List (List Char)} {p : List Char}
    (h : Text.pieces content = front ++ (place ++ [p]) ++ back)
    (hplace : (place ++ [p]).map Text.stripTerminator = Text.rows fix.replacedCode.toList)
    (hat : locator.locate ((Text.pieces content).map Text.stripTerminator)
      (Text.rows fix.replacedCode.toList) fix.line = .exact front.length) :
    patched locator content fix language =
      ((front ++ terminated (Text.lineEnding content).toList (terminator p)
        (Text.rows fix.suggestedCode.toList) ++ back).flatten, .exact) := by
  have hlen := congrArg List.length hplace
  rw [List.length_map] at hlen
  rw [← spliceLines_append h, hlen]
  refine patched_of_located language hat ?_
  rw [h, List.map_append, List.map_append, hplace, List.append_assoc,
    List.drop_left' (List.length_map _), List.take_left]

/-- A fix whose lines stand in the text where it says is located there. -/
theorem locate_of_pieces (locator : Locator) {content : List Char} {fix : Fix}
    {front place back : List (List Char)} (hline : front.length = fix.line - 1)
    (h : Text.pieces content = front ++ place ++ back)
    (hplace : place.map Text.stripTerminator = Text.rows fix.replacedCode.toList) :
    locator.locate ((Text.pieces content).map Text.stripTerminator)
      (Text.rows fix.replacedCode.toList) fix.line = .exact front.length := by
  have hlen : (front.map Text.stripTerminator).length = front.length := List.length_map _
  rw [h, List.map_append, List.map_append, hplace, ← hlen]
  exact locate_own locator (Text.rows_ne_nil _) (hlen.trans hline) _

end Mend.Patch
