import Mend.Proofs.Patch.Splice
import Mend.Proofs.Synthesis.Template

/-!
# Fixes of one file in either order

Two fixes that were made for one text replace lines of it. Applying one of them moves the lines of
the other if these stand further down, but keeps what ends the text's lines (`lineEnding_spliced`),
so that the second fix writes the same lines wherever it is placed.

Whether it is placed on its own lines is another matter, for the locator takes the place nearest to
the line that the fix remembers. The lines above a change do not move, so the fix that stands higher
up can always come second. A fix that stands further down comes to its own lines just when these,
moved as they are, are still the best place (`patched_comm`); where equal lines stand close
together they may not be (`not_patched_comm`).
-/

namespace Mend

namespace Patch

/-! ## What ends the lines of a patched text -/

variable {content old new : List Char} {line : Nat} {front place back : List (List Char)}
  {p : List Char}

theorem infix_flatten_of_mem {l : List Char} {ls : List (List Char)} (h : l ∈ ls) :
    l <:+: ls.flatten := by
  obtain ⟨before, after, rfl⟩ := List.append_of_mem h
  exact ⟨before.flatten, after.flatten, by simp⟩

/-- Lines that take the place of one that ends in a carriage return and a line feed have such a
line, too, unless they are fewer. -/
theorem crlf_terminated {q : List Char} (hq : q ∈ place ++ [p]) (hsuffix : ['\r', '\n'] <:+ q)
    {ls : List (List Char)} (hlen : place.length + 1 ≤ ls.length) :
    ∃ t ∈ terminated ['\r', '\n'] (terminator p) ls, ['\r', '\n'] <:+: t := by
  match ls with
  | [] => simp at hlen
  | [l] =>
    obtain rfl : place = [] := List.eq_nil_of_length_eq_zero (by simpa using hlen)
    obtain rfl : q = p := List.mem_singleton.mp hq
    obtain ⟨r, rfl⟩ := hsuffix
    rw [terminator_crlf]
    exact ⟨_, List.mem_cons_self, (List.suffix_append l _).isInfix⟩
  | l :: m :: ls =>
    rw [terminated_cons _ _ _ (List.cons_ne_nil _ _)]
    exact ⟨_, List.mem_cons_self, (List.suffix_append l _).isInfix⟩

/-- The text keeps a carriage return before a line feed if it has one. -/
theorem crlf_spliced (hfits : FitsAt content line old new)
    (h : Text.pieces content = front ++ (place ++ [p]) ++ back)
    (hplace : (place ++ [p]).map Text.stripTerminator = Text.rows old)
    (hcrlf : ['\r', '\n'] <:+: content) :
    ['\r', '\n'] <:+: (front ++ terminated ['\r', '\n'] (terminator p)
      (Text.rows new) ++ back).flatten := by
  have hlen := hfits.length_le
  rw [← hplace, List.length_map, List.length_append, List.length_singleton] at hlen
  obtain ⟨q, hq, hsuffix⟩ := Text.crlf_infix_iff.mp hcrlf
  have hline : ∃ t ∈ front ++ terminated ['\r', '\n'] (terminator p)
      (Text.rows new) ++ back, ['\r', '\n'] <:+: t := by
    rw [h] at hq
    rcases List.mem_append.mp hq with hq | hq
    · rcases List.mem_append.mp hq with hq | hq
      · exact ⟨q, by simp [hq], hsuffix.isInfix⟩
      · obtain ⟨t, ht, hinside⟩ := crlf_terminated hq hsuffix hlen
        exact ⟨t, by simp [ht], hinside⟩
    · exact ⟨q, by simp [hq], hsuffix.isInfix⟩
  obtain ⟨t, ht, hinside⟩ := hline
  exact hinside.trans (infix_flatten_of_mem ht)

theorem getLast?_flatten_ended {ps : List (List Char)} (h : ∀ p ∈ ps, Text.Ended p) :
    ps.flatten.getLast? ≠ some '\r' := by
  rcases List.eq_nil_or_concat ps with rfl | ⟨init, last, rfl⟩
  · simp
  · obtain ⟨l, -, rfl⟩ := h last (by simp)
    simp

/-- The text gets no carriage return before a line feed if it has none. -/
theorem not_crlf_spliced (hfits : FitsAt content line old new)
    (h : Text.pieces content = front ++ (place ++ [p]) ++ back)
    (hplace : (place ++ [p]).map Text.stripTerminator = Text.rows old)
    (hcrlf : ¬ ['\r', '\n'] <:+: content) :
    ¬ ['\r', '\n'] <:+: (front ++ terminated ['\n'] (terminator p)
      (Text.rows new) ++ back).flatten := by
  have hfront : ∀ q ∈ front, Text.Ended q := by
    rw [List.append_assoc] at h
    exact Text.ended_of_pieces_append h (by simp)
  have hpiece : ∀ q ∈ front ++ (place ++ [p]) ++ back, ¬ ['\r', '\n'] <:+: q := by
    intro q hq hinside
    refine hcrlf (hinside.trans ?_)
    rw [← Text.flatten_pieces content, h]
    exact infix_flatten_of_mem hq
  have hp : ¬ ['\r', '\n'] <:+: p := hpiece p (by simp)
  have hends : new.getLast? = some '\r' → ¬ Text.Ended p := by
    intro hlast hended
    have hrow := hfits.last hlast
    rw [← Text.joined_rows old, ← hplace, List.map_append] at hrow
    exact hp (Text.crlf_suffix_of_stripTerminator hended
      ((Text.getLast?_joined_concat (by decide) _ _).mp hrow)).isInfix
  have hcontent : front.flatten ++ (place ++ [p]).flatten ++ back.flatten = content := by
    rw [← List.flatten_append, ← List.flatten_append, ← h, Text.flatten_pieces]
  have hterminator : terminator p <:+ p := List.drop_suffix _ _
  rw [List.flatten_append, List.flatten_append, flatten_terminated_rows]
  intro hnew
  rcases Text.crlf_infix_append.mp hnew with hnew | hback | ⟨hlast, hhead⟩
  · rcases Text.crlf_infix_append.mp hnew with hfrontPair | hnew | ⟨hlast, -⟩
    · exact hcrlf (hfrontPair.trans ⟨[], (place ++ [p]).flatten ++ back.flatten,
        by rw [← hcontent]; simp⟩)
    · rcases Text.crlf_infix_append.mp hnew with hsuggested | hterm | ⟨hlast, hhead⟩
      · exact hcrlf (hfits.crlf hsuggested)
      · exact hp (hterm.trans hterminator.isInfix)
      · refine hends hlast ?_
        have hmem : p ∈ Text.pieces content := by simp [h]
        rcases Text.isPiece_of_mem_pieces hmem with hended | ⟨hplain, -⟩
        · exact hended
        · exact absurd (hterminator.subset (List.mem_of_mem_head? hhead)) hplain
    · exact getLast?_flatten_ended hfront hlast
  · exact hcrlf (hback.trans ⟨front.flatten ++ (place ++ [p]).flatten, [], by simp [← hcontent]⟩)
  · -- where something follows, the last replaced line ends in a line feed
    have hne : back ≠ [] := by
      rintro rfl
      simp at hhead
    have hended : Text.Ended p := Text.ended_of_pieces_append h hne p (by simp)
    rcases isEnding_terminator hended with hterm | hterm <;>
      rw [hterm, ← List.append_assoc] at hlast <;> simp at hlast

/-- What ends the lines of the text is the same once the lines of a candidate are replaced. -/
theorem lineEnding_spliced (hfits : FitsAt content line old new)
    (h : Text.pieces content = front ++ (place ++ [p]) ++ back)
    (hplace : (place ++ [p]).map Text.stripTerminator = Text.rows old) :
    Text.lineEnding (front ++ terminated (Text.lineEnding content).toList (terminator p)
      (Text.rows new) ++ back).flatten = Text.lineEnding content := by
  by_cases hcrlf : ['\r', '\n'] <:+: content
  · have hnew := crlf_spliced hfits h hplace hcrlf
    rw [Text.lineEnding_of_crlf hcrlf]
    exact Text.lineEnding_of_crlf hnew
  · have hnew := not_crlf_spliced hfits h hplace hcrlf
    rw [Text.lineEnding_of_not_crlf hcrlf]
    exact Text.lineEnding_of_not_crlf hnew

/-! ## One fix above another -/

/-- Rows that stand in a text, between the lines before and after them. -/
theorem exists_place {lines rows : List (List Char)} (hne : rows ≠ []) {start : Nat}
    (h : ((lines.map Text.stripTerminator).drop start).take rows.length = rows) :
    ∃ front place p back, lines = front ++ (place ++ [p]) ++ back ∧
      (place ++ [p]).map Text.stripTerminator = rows ∧ front.length = start := by
  obtain ⟨front, back, hstart, hlines⟩ := exists_append_of_take_drop hne h
  obtain ⟨before, after, rfl, hbefore, -⟩ := List.map_eq_append_iff.mp hlines
  obtain ⟨front, place, rfl, rfl, hplace⟩ := List.map_eq_append_iff.mp hbefore
  have hplaceNe : place ≠ [] := by
    rintro rfl
    exact hne hplace.symm
  refine ⟨front, place.dropLast, place.getLast hplaceNe, after, ?_, ?_, by simpa using hstart⟩
  · rw [List.dropLast_append_getLast]
  · rw [List.dropLast_append_getLast, hplace]

/-- Two fixes of a text, the first above the second, and the lines around those that they
replace. -/
structure Stacked (content : List Char) (f g : Fix) (top : List (List Char))
    (upper : List (List Char)) (p : List Char) (mid : List (List Char)) (lower : List (List Char))
    (q : List Char) (bottom : List (List Char)) : Prop where
  pieces_eq : Text.pieces content = top ++ (upper ++ [p]) ++ (mid ++ (lower ++ [q]) ++ bottom)
  upper_eq : (upper ++ [p]).map Text.stripTerminator = Text.rows f.replacedCode.toList
  lower_eq : (lower ++ [q]).map Text.stripTerminator = Text.rows g.replacedCode.toList
  top_length : top.length = f.line - 1
  mid_length : (top ++ (upper ++ [p]) ++ mid).length = g.line - 1

theorem exists_stacked {f g : Fix}
    (hf : FitsAt content f.line f.replacedCode.toList f.suggestedCode.toList)
    (hg : FitsAt content g.line g.replacedCode.toList g.suggestedCode.toList)
    (habove : f.line + (Text.rows f.replacedCode.toList).length ≤ g.line) :
    ∃ top upper p mid lower q bottom, Stacked content f g top upper p mid lower q bottom := by
  obtain ⟨top, upper, p, back, hpieces, hupper, htop⟩ :=
    exists_place (Text.rows_ne_nil f.replacedCode.toList) hf.lines
  have hlen : (top ++ (upper ++ [p])).length =
      f.line - 1 + (Text.rows f.replacedCode.toList).length := by
    rw [List.length_append, htop, ← hupper, List.length_map]
  have hfline : 1 ≤ f.line := hf.line_pos
  have hdrop : ((Text.pieces content).map Text.stripTerminator).drop (g.line - 1) =
      (back.map Text.stripTerminator).drop (g.line - 1 - (top ++ (upper ++ [p])).length) := by
    rw [hpieces, List.map_append, List.drop_append, List.drop_of_length_le, List.nil_append,
      List.length_map]
    rw [List.length_map]
    omega
  have hlines := hg.lines
  rw [hdrop] at hlines
  obtain ⟨mid, lower, q, bottom, rfl, hlower, hmid⟩ :=
    exists_place (Text.rows_ne_nil g.replacedCode.toList) hlines
  refine ⟨top, upper, p, mid, lower, q, bottom, hpieces, hupper, hlower, htop, ?_⟩
  rw [List.length_append, hmid]
  omega

section Stacked

variable {f g : Fix} {top upper mid lower bottom : List (List Char)} {p q : List Char}
  (locator : Locator) (language : Language)

/-- The lines that a fix writes in the place of those that end in `p`. -/
def written (content : List Char) (f : Fix) (p : List Char) : List (List Char) :=
  terminated (Text.lineEnding content).toList (terminator p) (Text.rows f.suggestedCode.toList)

theorem Stacked.pieces_eq' (h : Stacked content f g top upper p mid lower q bottom) :
    Text.pieces content = top ++ (upper ++ [p]) ++ mid ++ (lower ++ [q]) ++ bottom := by
  rw [h.pieces_eq]
  simp only [List.append_assoc]

theorem Stacked.patched_upper (h : Stacked content f g top upper p mid lower q bottom) :
    patched locator content f language =
      ((top ++ written content f p ++ (mid ++ (lower ++ [q]) ++ bottom)).flatten, .exact) :=
  patched_eq_spliced language h.pieces_eq h.upper_eq
    (locate_of_pieces locator h.top_length h.pieces_eq h.upper_eq)

theorem Stacked.patched_lower (h : Stacked content f g top upper p mid lower q bottom) :
    patched locator content g language =
      ((top ++ (upper ++ [p]) ++ mid ++ written content g q ++ bottom).flatten, .exact) :=
  patched_eq_spliced language h.pieces_eq' h.lower_eq
    (locate_of_pieces locator h.mid_length h.pieces_eq' h.lower_eq)

variable (hf : FitsAt content f.line f.replacedCode.toList f.suggestedCode.toList)
  (hg : FitsAt content g.line g.replacedCode.toList g.suggestedCode.toList)

include hg in
theorem Stacked.lineEnding_lower (h : Stacked content f g top upper p mid lower q bottom) :
    Text.lineEnding (top ++ (upper ++ [p]) ++ mid ++ written content g q ++ bottom).flatten =
      Text.lineEnding content :=
  lineEnding_spliced hg h.pieces_eq' h.lower_eq

/-- The lines of the upper fix have not moved once the lower one is applied. -/
theorem Stacked.pieces_lower (h : Stacked content f g top upper p mid lower q bottom) :
    Text.pieces (top ++ (upper ++ [p]) ++ mid ++ written content g q ++ bottom).flatten =
      top ++ (upper ++ [p]) ++ Text.pieces (mid ++ written content g q ++ bottom).flatten := by
  have hended : ∀ l ∈ top ++ (upper ++ [p]), Text.Ended l :=
    Text.ended_of_pieces_append h.pieces_eq (by simp)
  rw [← Text.pieces_ended_append hended, ← List.flatten_append]
  simp only [List.append_assoc]

include hg in
/-- The upper fix after the lower one. -/
theorem Stacked.patched_lower_upper (h : Stacked content f g top upper p mid lower q bottom) :
    patched locator (top ++ (upper ++ [p]) ++ mid ++ written content g q ++ bottom).flatten f
        language =
      ((top ++ written content f p ++ mid ++ written content g q ++ bottom).flatten, .exact) := by
  rw [patched_eq_spliced language h.pieces_lower h.upper_eq
    (locate_of_pieces locator h.top_length h.pieces_lower h.upper_eq), h.lineEnding_lower hg]
  simp only [List.flatten_append, Text.flatten_pieces, List.append_assoc, written]

include hf in
theorem Stacked.lineEnding_upper (h : Stacked content f g top upper p mid lower q bottom) :
    Text.lineEnding (top ++ written content f p ++ (mid ++ (lower ++ [q]) ++ bottom)).flatten =
      Text.lineEnding content :=
  lineEnding_spliced hf h.pieces_eq h.upper_eq

/-- The lines of the lower fix have moved once the upper one is applied. -/
theorem Stacked.pieces_upper (h : Stacked content f g top upper p mid lower q bottom) :
    Text.pieces (top ++ written content f p ++ (mid ++ (lower ++ [q]) ++ bottom)).flatten =
      top ++ written content f p ++ mid ++ (lower ++ [q]) ++ bottom := by
  have hended : ∀ l ∈ top ++ (upper ++ [p]), Text.Ended l :=
    Text.ended_of_pieces_append h.pieces_eq (by simp)
  have hwritten : ∀ l ∈ written content f p, Text.Ended l :=
    ended_terminated (isEnding_lineEnding content) (isEnding_terminator (hended p (by simp)))
      fun l hl => Text.not_mem_of_mem_rows hl
  have hnew : ∀ l ∈ top ++ written content f p, Text.Ended l := by
    intro l hl
    rcases List.mem_append.mp hl with hl | hl
    · exact hended l (List.mem_append_left _ hl)
    · exact hwritten l hl
  have hrest : Text.pieces (mid ++ (lower ++ [q]) ++ bottom).flatten =
      mid ++ (lower ++ [q]) ++ bottom := by
    have hcontent := congrArg List.flatten h.pieces_eq
    rw [Text.flatten_pieces, List.flatten_append] at hcontent
    have hpieces := h.pieces_eq
    rw [hcontent, Text.pieces_ended_append hended] at hpieces
    exact List.append_cancel_left hpieces
  rw [List.flatten_append, Text.pieces_ended_append hnew, hrest]
  simp only [List.append_assoc]

include hf in
/-- The lower fix after the upper one, where it is located on its own lines. -/
theorem Stacked.patched_upper_lower (h : Stacked content f g top upper p mid lower q bottom)
    (hat : locator.locate ((Text.pieces (top ++ written content f p ++
      (mid ++ (lower ++ [q]) ++ bottom)).flatten).map Text.stripTerminator)
      (Text.rows g.replacedCode.toList) g.line = .exact (top ++ written content f p ++ mid).length) :
    patched locator (top ++ written content f p ++ (mid ++ (lower ++ [q]) ++ bottom)).flatten g
        language =
      ((top ++ written content f p ++ mid ++ written content g q ++ bottom).flatten, .exact) := by
  rw [patched_eq_spliced language h.pieces_upper h.lower_eq hat, h.lineEnding_upper hf]
  rfl

end Stacked

/-! ## Either order -/

/-- The lines of a text without their terminators. -/
def bare (text : List Char) : List (List Char) :=
  (Text.pieces text).map Text.stripTerminator

/-- The text after a fix. -/
def after (locator : Locator) (language : Language) (text : List Char) (f : Fix) : List Char :=
  (patched locator text f language).1

/-- Where the lines of `g` start, counted from zero, once `f` is applied. -/
def startAfter (f g : Fix) : Nat :=
  if g.line < f.line then g.line - 1
  else g.line - 1 +
    ((Text.rows f.suggestedCode.toList).length - (Text.rows f.replacedCode.toList).length)

/-- No place where the code of the fix stands in the text is better than `start`. -/
def IsBest (text : List Char) (g : Fix) (start : Nat) : Prop :=
  ∀ n, Stands (bare text) (Text.rows g.replacedCode.toList) n → Better (g.line - 1) start n

/-- What holds when `f` is applied to a text, and `g` after it: `f` is placed on its own lines, `g`
finds its lines moved as they are, and is placed on them just when there is no better place. There
is none if `g` stands above `f`. -/
structure Follows (locator : Locator) (language : Language) (text : List Char) (f g : Fix) :
    Prop where
  first_at : locator.locate (bare text) (Text.rows f.replacedCode.toList) f.line =
    .exact (f.line - 1)
  first_exact : (patched locator text f language).2 = .exact
  moved : ((bare (after locator language text f)).drop (startAfter f g)).take
    (Text.rows g.replacedCode.toList).length = Text.rows g.replacedCode.toList
  second_at : locator.locate (bare (after locator language text f))
    (Text.rows g.replacedCode.toList) g.line = .exact (startAfter f g) ↔
      IsBest (after locator language text f) g (startAfter f g)
  above : g.line < f.line → IsBest (after locator language text f) g (startAfter f g)

theorem locate_iff_isBest (locator : Locator) {text : List Char} {g : Fix}
    {front place back : List (List Char)} (h : Text.pieces text = front ++ place ++ back)
    (hplace : place.map Text.stripTerminator = Text.rows g.replacedCode.toList) :
    ((bare text).drop front.length).take (Text.rows g.replacedCode.toList).length =
        Text.rows g.replacedCode.toList ∧
      (locator.locate (bare text) (Text.rows g.replacedCode.toList) g.line = .exact front.length ↔
        IsBest text g front.length) := by
  have hbare : bare text = front.map Text.stripTerminator ++ Text.rows g.replacedCode.toList ++
      back.map Text.stripTerminator := by
    rw [bare, h, List.map_append, List.map_append, hplace]
  have hstands := stands_append (front.map Text.stripTerminator)
    (Text.rows g.replacedCode.toList) (back.map Text.stripTerminator)
  rw [← hbare, List.length_map] at hstands
  refine ⟨?_, ?_⟩
  · rw [hbare, List.append_assoc, List.drop_left' (List.length_map _), List.take_left]
  · rw [locate_eq_exact_iff]
    exact ⟨fun h => h.2.2, fun h => ⟨Text.rows_ne_nil _, hstands, h⟩⟩

section Stacked

variable {f g : Fix} {top upper mid lower bottom : List (List Char)} {p q : List Char}
  (locator : Locator) (language : Language)

theorem Stacked.startAfter_lower (hf : FitsAt content f.line f.replacedCode.toList
    f.suggestedCode.toList) (h : Stacked content f g top upper p mid lower q bottom) :
    startAfter f g = (top ++ written content f p ++ mid).length := by
  have hupper := congrArg List.length h.upper_eq
  have htop := h.top_length
  have hmid := h.mid_length
  have hle := hf.length_le
  have hpos := hf.line_pos
  rw [List.length_map] at hupper
  simp only [List.length_append, List.length_singleton] at hupper hmid
  rw [startAfter, if_neg (by omega)]
  simp only [List.length_append, written, length_terminated]
  omega

theorem Stacked.startAfter_upper (hf : FitsAt content f.line f.replacedCode.toList
    f.suggestedCode.toList) (h : Stacked content f g top upper p mid lower q bottom) :
    f.line < g.line ∧ startAfter g f = top.length := by
  have htop := h.top_length
  have hmid := h.mid_length
  have hpos := hf.line_pos
  simp only [List.length_append, List.length_singleton] at hmid
  have hlt : f.line < g.line := by omega
  exact ⟨hlt, by rw [startAfter, if_pos hlt, htop]⟩

theorem Stacked.follows_lower (hf : FitsAt content f.line f.replacedCode.toList
    f.suggestedCode.toList) (h : Stacked content f g top upper p mid lower q bottom) :
    Follows locator language content f g := by
  have hafter : after locator language content f =
      (top ++ written content f p ++ (mid ++ (lower ++ [q]) ++ bottom)).flatten :=
    congrArg Prod.fst (h.patched_upper locator language)
  have hstart := h.startAfter_lower hf
  obtain ⟨hmoved, hiff⟩ := locate_iff_isBest locator h.pieces_upper h.lower_eq
  refine ⟨?_, congrArg Prod.snd (h.patched_upper locator language), ?_, ?_, ?_⟩
  · rw [← h.top_length]
    exact locate_of_pieces locator h.top_length h.pieces_eq h.upper_eq
  · rw [hafter, hstart]
    exact hmoved
  · rw [hafter, hstart]
    exact hiff
  · intro hlt
    exact absurd (h.startAfter_upper hf).1 (Nat.not_lt.mpr (Nat.le_of_lt hlt))

theorem Stacked.follows_upper (hf : FitsAt content f.line f.replacedCode.toList
    f.suggestedCode.toList) (h : Stacked content f g top upper p mid lower q bottom) :
    Follows locator language content g f := by
  have hafter : after locator language content g =
      (top ++ (upper ++ [p]) ++ mid ++ written content g q ++ bottom).flatten :=
    congrArg Prod.fst (h.patched_lower locator language)
  have hstart := (h.startAfter_upper hf).2
  obtain ⟨hmoved, hiff⟩ := locate_iff_isBest locator h.pieces_lower h.upper_eq
  have hat := locate_of_pieces locator h.top_length h.pieces_lower h.upper_eq
  refine ⟨?_, congrArg Prod.snd (h.patched_lower locator language), ?_, ?_, ?_⟩
  · rw [← h.mid_length]
    exact locate_of_pieces locator h.mid_length h.pieces_eq' h.lower_eq
  · rw [hafter, hstart]
    exact hmoved
  · rw [hafter, hstart]
    exact hiff
  · intro _
    rw [hafter, hstart]
    exact hiff.mp hat

/-- Both orders give one text, if the lower fix comes to its own lines after the upper one. -/
theorem Stacked.patched_eq (hf : FitsAt content f.line f.replacedCode.toList
    f.suggestedCode.toList) (hg : FitsAt content g.line g.replacedCode.toList
    g.suggestedCode.toList) (h : Stacked content f g top upper p mid lower q bottom)
    (hbest : IsBest (after locator language content f) g (startAfter f g)) :
    patched locator (after locator language content f) g language =
        patched locator (after locator language content g) f language ∧
      (patched locator (after locator language content g) f language).2 = .exact := by
  have hupper : after locator language content f =
      (top ++ written content f p ++ (mid ++ (lower ++ [q]) ++ bottom)).flatten :=
    congrArg Prod.fst (h.patched_upper locator language)
  have hlower : after locator language content g =
      (top ++ (upper ++ [p]) ++ mid ++ written content g q ++ bottom).flatten :=
    congrArg Prod.fst (h.patched_lower locator language)
  have hat := (locate_iff_isBest locator h.pieces_upper h.lower_eq).2.mpr
    (by rwa [← hupper, ← h.startAfter_lower hf])
  rw [hupper, hlower, h.patched_upper_lower locator language hf hat,
    h.patched_lower_upper locator language hg]
  exact ⟨rfl, rfl⟩

end Stacked

end Patch

namespace Fix

/-- The fix was synthesized for an issue in a text. -/
def MadeFrom (content : String) (f : Fix) : Prop :=
  ∃ (o : SynthesisOptions) (issue : Issue) (c : Candidate) (options : Diff.Options) (id : String)
    (now : Time), Candidate.forIssue o issue.toFinding content = .ok (some c) ∧
      f = c.toFix issue options id now

/-- The line is one of those that the fix replaces. -/
def Covers (f : Fix) (line : Nat) : Prop :=
  f.line ≤ line ∧ line < f.line + (Text.rows f.replacedCode.toList).length

theorem MadeFrom.fitsAt {content : String} {f : Fix} (h : f.MadeFrom content) :
    FitsAt content.toList f.line f.replacedCode.toList f.suggestedCode.toList := by
  obtain ⟨o, issue, c, options, id, now, hc, rfl⟩ := h
  exact Candidate.fitsAt_of_forIssue hc

/-- Of two fixes that cover no line together one stands above the other. -/
theorem above_or_above {f g : Fix} (h : ∀ n, f.Covers n → ¬ g.Covers n) :
    f.line + (Text.rows f.replacedCode.toList).length ≤ g.line ∨
      g.line + (Text.rows g.replacedCode.toList).length ≤ f.line := by
  have hf := List.length_pos_iff.mpr (Text.rows_ne_nil f.replacedCode.toList)
  have hg := List.length_pos_iff.mpr (Text.rows_ne_nil g.replacedCode.toList)
  have hmax := h (max f.line g.line)
  unfold Covers at hmax
  omega

end Fix

namespace Patch

/-- Two fixes that were synthesized from one text and cover no line together. In either order the
first is placed on its own lines, and the second comes to its own lines just when no other place is
better; the one that stands higher up always does. Where both come to their own lines, both orders
give the same text. -/
theorem patched_comm (locator : Locator) (language : Language) {content : String} {f g : Fix}
    (hf : f.MadeFrom content) (hg : g.MadeFrom content) (hapart : ∀ n, f.Covers n → ¬ g.Covers n) :
    Follows locator language content.toList f g ∧ Follows locator language content.toList g f ∧
      (IsBest (after locator language content.toList f) g (startAfter f g) →
        IsBest (after locator language content.toList g) f (startAfter g f) →
        patched locator (after locator language content.toList f) g language =
            patched locator (after locator language content.toList g) f language ∧
          (patched locator (after locator language content.toList g) f language).2 = .exact) := by
  have hf := hf.fitsAt
  have hg := hg.fitsAt
  rcases Fix.above_or_above hapart with habove | habove
  · obtain ⟨_, _, _, _, _, _, _, h⟩ := exists_stacked hf hg habove
    exact ⟨h.follows_lower locator language hf, h.follows_upper locator language hf,
      fun hbest _ => h.patched_eq locator language hf hg hbest⟩
  · obtain ⟨_, _, _, _, _, _, _, h⟩ := exists_stacked hg hf habove
    refine ⟨h.follows_upper locator language hg, h.follows_lower locator language hg,
      fun _ hbest => ?_⟩
    obtain ⟨heq, hexact⟩ := h.patched_eq locator language hg hf hbest
    exact ⟨heq.symm, heq ▸ hexact⟩

/-! ## Equal lines -/

/-- The issue of an update of the state that comes too late. -/
def lateUpdate (line : Nat) : Issue :=
  { id := "", kind := .raceCondition, severity := .high, rule := "flutter/set-state-after-await"
    platform := .flutter, file := ⟨"/app/a.dart"⟩, line, column := some 1, evidence := ""
    title := "", description := "", detectedAt := ⟨0, 0⟩ }

/-- The candidate that puts a guard before an update. -/
def guardCandidate (line : Nat) : Candidate :=
  { template := "mounted-guard"
    title := "Check mounted before setState"
    description := "The widget may have been disposed while the future was pending."
    confidence := 60, line, replacedCode := "setState(go);"
    suggestedCode := "if (!mounted) return;\nsetState(go);"
    alternatives := [⟨"Guard only the setState call",
      "Lets the rest of the method run after dispose", 50, some "if (mounted) setState(go);"⟩] }

/-- The fix that puts a guard before an update. -/
def guardUpdate (line : Nat) : Fix :=
  (guardCandidate line).toFix (lateUpdate line) {} "" ⟨0, 0⟩

theorem madeFrom_guardUpdate {text : String} {line : Nat}
    (h : Candidate.forIssue {} (lateUpdate line).toFinding text = .ok (some (guardCandidate line))) :
    (guardUpdate line).MadeFrom text :=
  ⟨{}, lateUpdate line, guardCandidate line, {}, "", ⟨0, 0⟩, h, rfl⟩

theorem rows_guardUpdate (line : Nat) :
    Text.rows (guardUpdate line).replacedCode.toList = ["setState(go);".toList] ∧
      Text.rows (guardUpdate line).suggestedCode.toList =
        ["if (!mounted) return;".toList, "setState(go);".toList] :=
  ⟨show Text.rows "setState(go);".toList = _ by decide,
    show Text.rows "if (!mounted) return;\nsetState(go);".toList = _ by decide⟩

theorem covers_guardUpdate {line n : Nat} (h : (guardUpdate line).Covers n) : n = line := by
  obtain ⟨hle, hlt⟩ := h
  rw [(rows_guardUpdate line).1] at hlt
  exact Nat.le_antisymm (Nat.le_of_lt_succ hlt) hle

/-- A guard before an update that is located after the lines of `front`. -/
theorem after_guardUpdate {text : List Char} {line : Nat} (front back : List (List Char))
    (h : Text.pieces text = front ++ ([] ++ ["setState(go);\n".toList]) ++ back)
    (hat : Locator.locate {} (bare text) ["setState(go);".toList] line = .exact front.length) :
    after {} .dart text (guardUpdate line) =
      (front ++ terminated (Text.lineEnding text).toList ['\n']
        ["if (!mounted) return;".toList, "setState(go);".toList] ++ back).flatten := by
  obtain ⟨hreplaced, hsuggested⟩ := rows_guardUpdate line
  have hterminator : terminator "setState(go);\n".toList = ['\n'] := by decide
  rw [after, patched_eq_spliced .dart h (by rw [hreplaced]; decide) (by rw [hreplaced]; exact hat),
    hsuggested, hterminator]

/-- Of two equal lines that are three apart the second is still the best place for its own fix
once it has moved. -/
theorem patched_comm_distant :
    let text := "await load();\nsetState(go);\nshow();\nhide();\nsetState(go);\n"
    (guardUpdate 2).MadeFrom text ∧ (guardUpdate 5).MadeFrom text ∧
      patched {} (after {} .dart text.toList (guardUpdate 2)) (guardUpdate 5) .dart =
          patched {} (after {} .dart text.toList (guardUpdate 5)) (guardUpdate 2) .dart ∧
        (patched {} (after {} .dart text.toList (guardUpdate 5)) (guardUpdate 2) .dart).2 =
          .exact := by
  intro text
  have hfirst : (guardUpdate 2).MadeFrom text := madeFrom_guardUpdate (by decide)
  have hsecond : (guardUpdate 5).MadeFrom text := madeFrom_guardUpdate (by decide)
  obtain ⟨hdown, hup, heq⟩ := patched_comm {} .dart hfirst hsecond fun n h2 h5 => by
    have := covers_guardUpdate h2
    have := covers_guardUpdate h5
    omega
  refine ⟨hfirst, hsecond, heq (hdown.second_at.mp ?_) (hup.above (by decide))⟩
  have hafter : after {} .dart text.toList (guardUpdate 2) = _ :=
    after_guardUpdate ["await load();\n".toList]
      ["show();\n".toList, "hide();\n".toList, "setState(go);\n".toList] (by decide) (by decide)
  rw [hafter]
  decide

/-- Of two equal lines, one right after the other, the first is guarded twice if it is guarded
first: the fix of the second line then finds the line that the first one has moved to. -/
theorem not_patched_comm :
    let text := "await load();\nsetState(go);\nsetState(go);\n"
    (guardUpdate 2).MadeFrom text ∧ (guardUpdate 3).MadeFrom text ∧
      (∀ n, (guardUpdate 2).Covers n → ¬ (guardUpdate 3).Covers n) ∧
      after {} .dart (after {} .dart text.toList (guardUpdate 2)) (guardUpdate 3) =
        ("await load();\nif (!mounted) return;\nif (!mounted) return;\n"
          ++ "setState(go);\nsetState(go);\n").toList ∧
      after {} .dart (after {} .dart text.toList (guardUpdate 3)) (guardUpdate 2) =
        ("await load();\nif (!mounted) return;\nsetState(go);\n"
          ++ "if (!mounted) return;\nsetState(go);\n").toList := by
  intro text
  have hdown : after {} .dart text.toList (guardUpdate 2) = _ :=
    after_guardUpdate ["await load();\n".toList] ["setState(go);\n".toList] (by decide) (by decide)
  have hup : after {} .dart text.toList (guardUpdate 3) = _ :=
    after_guardUpdate ["await load();\n".toList, "setState(go);\n".toList] [] (by decide) (by decide)
  refine ⟨madeFrom_guardUpdate (by decide), madeFrom_guardUpdate (by decide), ?_, ?_, ?_⟩
  · intro n h2 h3
    have := covers_guardUpdate h2
    have := covers_guardUpdate h3
    omega
  · rw [hdown, after_guardUpdate ["await load();\n".toList, "if (!mounted) return;\n".toList]
      ["setState(go);\n".toList] (by decide) (by decide)]
    decide
  · rw [hup, after_guardUpdate ["await load();\n".toList]
      ["if (!mounted) return;\n".toList, "setState(go);\n".toList] (by decide) (by decide)]
    decide

end Patch

end Mend
