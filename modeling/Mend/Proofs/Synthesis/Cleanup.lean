import Mend.Proofs.Synthesis.Blocks
import Mend.Proofs.Synthesis.Shapes
import Mend.Proofs.Text.Closing
import Mend.Proofs.Text.Position
import Mend.Proofs.Text.Visible

/-!
# Where a cleanup is put in

The template for effects that leak puts a statement before the brace that closes the effect: on a
line of its own if the brace starts its line, else right after the code before the brace
(`Synthesis.Effect.exists_inserted`). It puts no semicolon there, so that the statement is one of
its own exactly if the code before the brace ends in a semicolon, a brace or a line break
(`Synthesis.effectCleanup_apart`). An effect of one line whose last statement has no semicolon is
the other case (`Synthesis.not_effectCleanup_apart`).
-/

namespace Mend

open Attempt Text Mask

/-! ## Joined lines -/

namespace Text

/-- Lines, each with a line feed. -/
def ended (ls : List (List Char)) : List Char := (ls.map (· ++ ['\n'])).flatten

theorem joined_append (l : List Char) (ms : List (List Char)) : ∀ ls : List (List Char),
    Window.joined (ls ++ l :: ms) = ended ls ++ Window.joined (l :: ms)
  | [] => rfl
  | k :: ls => by
    have ih := joined_append l ms ls
    obtain ⟨k', ls', hrest⟩ : ∃ k' ls', ls ++ l :: ms = k' :: ls' :=
      List.exists_cons_of_ne_nil (by simp)
    rw [hrest] at ih
    rw [List.cons_append, hrest, joined_cons_cons, ih]
    simp [ended]

/-- After the first of some lines comes the end or a line feed. -/
theorem exists_joined_cons (l : List Char) : ∀ ms : List (List Char),
    ∃ t, Window.joined (l :: ms) = l ++ t ∧ ∀ c ∈ t.head?, c = '\n'
  | [] => ⟨[], by rw [joined_singleton, List.append_nil], nofun⟩
  | m :: ms => ⟨'\n' :: Window.joined (m :: ms), joined_cons_cons l m ms, fun _ hc =>
      (Option.some.inj hc).symm⟩

theorem joined_concat (ls : List (List Char)) (l : List Char) :
    Window.joined (ls ++ [l]) = ended ls ++ l := by
  rw [joined_append, joined_singleton]

theorem eq_newline_of_getLast?_ended {ls : List (List Char)} {c : Char}
    (h : (ended ls).getLast? = some c) : c = '\n' := by
  rcases List.eq_nil_or_concat ls with rfl | ⟨ks, k, rfl⟩
  · cases h
  · simpa [ended, eq_comm] using h

theorem ended_of_plain {ls : List (List Char)} (h : ∀ l ∈ ls, '\n' ∉ l) :
    ∀ p ∈ ls.map (· ++ ['\n']), Ended p := by
  intro p hp
  obtain ⟨l, hl, rfl⟩ := List.mem_map.mp hp
  exact ⟨l, h l hl, rfl⟩

/-- After some lines the next one starts. -/
theorem LineIndex.lineStart_ended {ls : List (List Char)} (h : ∀ l ∈ ls, '\n' ∉ l) (t : List Char) :
    (of (ended ls ++ t)).lineStart (ls.length + 1) = width (ended ls) := by
  have hstart := lineStart_lines (ended_of_plain h) t
  rwa [List.length_map] at hstart

end Text

/-- Shown lines start the text from the focus on, and a line feed comes after them if anything does. -/
theorem Window.Shows.exists_tail {w : Window} {ls : List (List Char)} (h : w.Shows ls) (hne : ls ≠ [])
    {tail : List Char} (htail : w.tailFrom? w.focus = some tail) :
    ∃ t, tail = joined ls ++ t ∧ ∀ c ∈ t.head?, c = '\n' := by
  have hlines := (List.take_append_drop ls.length (w.lines.drop (w.focus - w.firstLine))).symm
  obtain ⟨earlier, last, rfl⟩ := List.eq_nil_or_concat ls |>.resolve_left hne
  rw [List.concat_eq_append] at h hlines ⊢
  rw [h.2, List.append_assoc, List.singleton_append] at hlines
  obtain ⟨t, ht, hafter⟩ := exists_joined_cons last
    ((w.lines.drop (w.focus - w.firstLine)).drop (earlier ++ [last]).length)
  refine ⟨t, ?_, hafter⟩
  rw [tailFrom?_eq htail, hlines, joined_append, ht, joined_concat, List.append_assoc]

namespace Synthesis

variable {w : Window} {e : Effect}

theorem covers_of_at (he : (Effect.at? w).Gives e) : Covers e.tail e.masked := by
  rw [(reads_of_at he).masked_eq]
  exact Mask.covers_mask _ _

/-- The lines inside an effect and their masks. -/
theorem covers_inner (hw : w.Plain) (he : (Effect.at? w).Gives e) {first : List Char}
    {inner after : List (List Char)} (hls : e.lines? w = some (first :: inner ++ after)) :
    ∀ l ∈ inner.zipIdx.map (fun (line, i) => (line, ((rows e.masked).drop 1)[i]?.getD [])),
      Covers l.1 l.2 := by
  have hreads := reads_of_at he
  intro l hl
  obtain ⟨⟨line, i⟩, hmem, rfl⟩ := List.mem_map.mp hl
  have hline : (rows e.tail)[i + 1]? = some line := by
    have hi := List.mem_zipIdx_iff_getElem?.mp hmem
    obtain ⟨hlt, -⟩ := List.getElem?_eq_some_iff.mp hi
    have hinner : (first :: inner ++ after)[i + 1]? = some line := by
      rw [List.cons_append, List.getElem?_cons_succ, List.getElem?_append_left hlt, hi]
    rw [take_rows_of_span hw hreads.one_le hreads.tail_eq hls, List.getElem?_take] at hinner
    split at hinner
    · exact hinner
    · cases hinner
  have hrows := (covers_of_at he).rows
  obtain ⟨hlt, rfl⟩ := List.getElem?_eq_some_iff.mp hline
  have hlt' : i + 1 < (rows e.masked).length := hrows.length_eq ▸ hlt
  change Covers _ (((rows e.masked).drop 1)[i]?.getD [])
  rw [List.getElem?_drop, Nat.add_comm 1 i, List.getElem?_eq_getElem hlt', Option.getD_some]
  exact hrows.get hlt hlt'

namespace Effect

/-- The effect ends at the closer of its brace, on the line of it. -/
theorem closes_of_at (h : (Effect.at? w).Gives e) :
    matchingClose e.masked e.opening = some e.close ∧
      e.closeLine = (LineIndex.of e.tail).lineOf e.close := by
  simp only [Effect.at?, gives_bind, gives_of, gives_lift, gives_require, gives_pure] at h
  obtain ⟨tail, -, opener, -, front, -, -, -, close, hclose, rfl⟩ := h
  exact ⟨hclose, rfl⟩

/-- The lines of an effect, up to the brace that closes it and from there on. What comes before the
brace ends in code, and the mask shows it as if nothing followed. -/
structure Cut (w : Window) (e : Effect) (earlier : List (List Char)) (front back : List Char) :
    Prop where
  plain : ∀ l ∈ earlier ++ [front ++ back], '\n' ∉ l
  length_eq : earlier.length + 1 = e.closeLine
  closer : ∃ kind : Delimiter, back.head? = some kind.closer
  inCode : InCode w.language (ended earlier ++ front)
  masked_eq : cut 0 e.close e.masked = mask w.language (ended earlier ++ front)
  tail_eq : ended earlier ++ front ++ back <+: e.tail
  width_eq : width (ended earlier ++ front) = e.close

theorem exists_cut (hw : w.Plain) (he : (Effect.at? w).Gives e) {ls : List (List Char)}
    {last front back : List Char} (hls : e.lines? w = some ls) (hlast : ls.getLast? = some last)
    (hfront : before (e.close - (LineIndex.of e.tail).lineStart e.closeLine) last = .ok front)
    (hback : onward (e.close - (LineIndex.of e.tail).lineStart e.closeLine) last = .ok back) :
    ls = ls.dropLast ++ [front ++ back] ∧ Cut w e ls.dropLast front back := by
  have hreads := reads_of_at he
  obtain ⟨hclose, hline⟩ := closes_of_at he
  obtain ⟨hshows, hlength⟩ := hreads.shows_lines hls
  have hconcat : ls = ls.dropLast ++ [last] := (List.dropLast_append_getLast? last hlast).symm
  have hparts := before_append_onward hfront hback
  rw [← hparts] at hconcat
  have hplain : ∀ l ∈ ls, '\n' ∉ l := fun l hl => hw l (hshows.subset hl)
  have hearlier : ∀ l ∈ ls.dropLast, '\n' ∉ l := fun l hl => hplain l (List.dropLast_subset _ hl)
  have hlength' : ls.dropLast.length + 1 = e.closeLine := by
    rw [← hlength]
    conv_rhs => rw [hconcat, List.length_append, List.length_singleton]
  obtain ⟨t, htail, hafter⟩ : ∃ t, e.tail = ended ls.dropLast ++ front ++ (back ++ t) ∧
      ∀ c ∈ t.head?, c = '\n' := by
    obtain ⟨t, ht, hafter⟩ := hshows.exists_tail (by rw [hconcat]; simp) hreads.tail_eq
    refine ⟨t, ?_, hafter⟩
    rw [ht, hconcat, joined_concat, ← hconcat]
    simp only [List.append_assoc]
  have hwidth : width (ended ls.dropLast ++ front) = e.close := by
    have hle := LineIndex.lineStart_lineOf_le e.tail e.close
    have hstart := LineIndex.lineStart_ended hearlier (front ++ (back ++ t))
    rw [← List.append_assoc, ← htail, hlength'] at hstart
    obtain ⟨_, -, hcolumn⟩ := exists_of_before hfront
    rw [← hline, hstart] at hle
    rw [hstart] at hcolumn
    rw [width_append, hcolumn]
    omega
  obtain ⟨kind, opened, mid, n, hmasked, hopening, hm, -⟩ := matchingClose_iff.mp hclose
  obtain ⟨m, hmasked, hm⟩ : ∃ m, e.masked = m ++ kind.closer :: n ∧ width m = e.close := by
    refine ⟨opened ++ kind.opener :: mid, by rw [hmasked]; simp, ?_⟩
    rw [width_append, width, size_opener, hopening, ← hm, Nat.add_assoc]
  have hclosers : ∀ kind : Delimiter, kind.closer ≠ ' ' ∧ kind.closer ≠ '\n' ∧
      isQuiet kind.closer = true := by
    intro kind
    cases kind <;> decide
  obtain ⟨hspace, hnewline, hquiet⟩ := hclosers kind
  rw [hreads.masked_eq] at hmasked
  obtain ⟨r, hr⟩ := exists_of_masked hspace hmasked htail (hwidth.trans hm.symm)
  rw [htail, hr] at hmasked
  obtain ⟨hcode, rfl, -⟩ := inCode_of_visible hquiet hspace hmasked (hm.trans hwidth.symm)
  refine ⟨hconcat, ?_, hlength', ?_, hcode, ?_, ⟨t, by rw [htail, List.append_assoc]⟩, hwidth⟩
  · rw [← hconcat]
    exact hplain
  · cases back with
    | nil => exact absurd (hafter kind.closer (by rw [← List.nil_append t, hr]; rfl)) hnewline
    | cons c back => exact ⟨kind, congrArg some (List.cons.inj hr).1⟩
  · rw [hreads.masked_eq, htail, hr, hmasked, ← hm, cut_width]

/-- The blanks that a body is indented by stand in its lines. -/
theorem blanks_of_bodyIndent (ls : List (List Char)) {front : List Char}
    (hfront : front.all isBlank = true) :
    ((bodyIndent? ls).getD (front ++ [' ', ' '])).all isBlank = true ∧
      ∀ c ∈ (bodyIndent? ls).getD (front ++ [' ', ' ']), c = ' ' ∨ c ∈ front ∨ ∃ l ∈ ls, c ∈ l := by
  cases h : bodyIndent? ls with
  | none =>
    rw [Option.getD_none]
    refine ⟨by rw [List.all_append, hfront]; decide, fun c hc => ?_⟩
    simp only [List.mem_append, List.mem_cons, List.not_mem_nil, or_false, or_self] at hc
    tauto
  | some indent =>
    obtain ⟨l, hl, rfl⟩ := Option.map_eq_some_iff.mp h
    exact ⟨List.all_takeWhile, fun c hc => Or.inr (Or.inr
      ⟨l, List.mem_of_find?_eq_some hl, (List.takeWhile_prefix _).subset hc⟩)⟩

/-- A statement comes before the brace on a line of its own, indented by blanks of the lines, if
nothing but blanks is before the brace in its line. Else it comes after what is there, the blanks at
its end aside. -/
theorem exists_inserted (hw : w.Plain) (he : (Effect.at? w).Gives e) {statement : List Char}
    {replaced suggested : List (List Char)}
    (h : (e.insertBeforeClose w statement).Gives (replaced, suggested)) :
    ∃ earlier front back, replaced = earlier ++ [front ++ back] ∧ Cut w e earlier front back ∧
      ((front.all isBlank = true ∧ ∃ indent : List Char, indent.all isBlank = true ∧
          (∀ c ∈ indent, c = ' ' ∨ ∃ l ∈ replaced, c ∈ l) ∧
          suggested = earlier ++ [indent ++ statement, front ++ back]) ∨
        suggested = earlier ++ [trimEnd front ++ [' '] ++ statement ++ [' '] ++ back]) := by
  simp only [insertBeforeClose, gives_bind, gives_of, gives_lift] at h
  obtain ⟨ls, hls, last, hlast, front, hfront, back, hback, h⟩ := h
  obtain ⟨hconcat, hcut⟩ := exists_cut hw he hls hlast hfront hback
  have hparts := before_append_onward hfront hback
  refine ⟨ls.dropLast, front, back, ?_⟩
  split at h
  · next hown =>
    rw [gives_pure, Prod.mk.injEq] at h
    obtain ⟨rfl, rfl⟩ := h
    rw [Bool.and_eq_true] at hown
    obtain ⟨hblank, hfrom⟩ := blanks_of_bodyIndent (ls.dropLast.drop 1) hown.2
    refine ⟨hconcat, hcut, Or.inl ⟨hown.2, _, hblank, fun c hc => ?_, by rw [hparts]⟩⟩
    rcases hfrom c hc with hspace | hmem | ⟨l, hl, hmem⟩
    · exact Or.inl hspace
    · exact Or.inr ⟨last, List.mem_of_getLast? hlast, hparts ▸ List.mem_append_left _ hmem⟩
    · exact Or.inr ⟨l, List.dropLast_subset _ (List.drop_subset _ _ hl), hmem⟩
  · rw [gives_pure, Prod.mk.injEq] at h
    obtain ⟨rfl, rfl⟩ := h
    exact ⟨hconcat, hcut, Or.inr rfl⟩

end Effect

/-! ## Statements of their own -/

/-- The characters after which a statement may begin. -/
def endsBefore (c : Char) : Bool := endsStatement c || c == '\n'

/-- A text ends, but for characters that are skipped, after a statement or a line, or in a brace. -/
def isApart (skip : Char → Bool) (s : List Char) : Bool :=
  (s.reverse.find? fun c => !skip c).any endsBefore

theorem isApart_append {skip : Char → Bool} (s : List Char) {gap : List Char}
    (hgap : gap.all skip = true) : isApart skip (s ++ gap) = isApart skip s := by
  have hnone : gap.reverse.find? (fun c => !skip c) = none :=
    List.find?_eq_none.mpr fun c hc => by
      rw [List.all_eq_true.mp hgap c (List.mem_reverse.mp hc)]
      decide
  rw [isApart, isApart, List.reverse_append, List.find?_append, hnone, Option.none_or]

/-- A space or a tab. -/
def isSpaceOrTab (c : Char) : Bool := c == ' ' || c == '\t'

/-- A blank inside a line. -/
def isLineBlank (c : Char) : Bool := isBlank c && c != '\n'

theorem all_isLineBlank {s : List Char} (h : s.all isBlank = true) (hn : '\n' ∉ s) :
    s.all isLineBlank = true :=
  List.all_eq_true.mpr fun c hc => by
    rw [isLineBlank, List.all_eq_true.mp h c hc, Bool.true_and, bne_iff_ne]
    exact fun heq => hn (heq ▸ hc)

theorem all_isBlank_of_lineBlank {s : List Char} (h : s.all isLineBlank = true) :
    s.all isBlank = true :=
  List.all_eq_true.mpr fun c hc => (Bool.and_eq_true _ _ ▸ List.all_eq_true.mp h c hc).1

theorem quiet_of_blanks {s : List Char} (h : s.all isBlank = true) (hn : '\n' ∉ s) :
    s.all isQuiet = true :=
  Balance.quiet_of_inert (inert_of_blank h hn)

theorem all_isQuiet_of_lineBlank {s : List Char} (h : s.all isLineBlank = true) :
    s.all isQuiet = true :=
  quiet_of_blanks (all_isBlank_of_lineBlank h) fun hmem =>
    absurd (List.all_eq_true.mp h _ hmem) (by decide)

/-- Blanks after code change nothing but what is skipped. -/
theorem isApart_mask {language : Language} {skip : Char → Bool} {core gap : List Char}
    (hcode : InCode language core) (hquiet : gap.all isQuiet = true) (hgap : gap.all skip = true) :
    isApart skip (mask language (core ++ gap)) = isApart skip (mask language core) := by
  rw [hcode.mask_append_quiet hquiet, isApart_append _ hgap]

theorem starts_of_cleanupStatement? {calls : List (List Char)} {statement : List Char}
    (h : cleanupStatement? calls = some statement) :
    ∃ later, statement = "return (".toList ++ later := by
  unfold cleanupStatement? at h
  split at h
  · cases h
  · exact ⟨_, (Option.some.inj h).symm⟩
  · exact ⟨_, (Option.some.inj h).symm⟩

/-- Where a statement comes after code and blanks, it is masked as code. -/
theorem mask_statement {language : Language} {core gap statement : List Char}
    (hcode : InCode language core) (hgap : gap.all isQuiet = true)
    (hstatement : ∃ later, statement = "return (".toList ++ later) (rest : List Char) :
    ∃ later, mask language (core ++ gap ++ statement ++ rest) =
      mask language (core ++ gap) ++ ("return (".toList ++ later) := by
  obtain ⟨s, rfl⟩ := hstatement
  have hquiet : "return (".toList.all isQuiet = true := by decide
  have hahead : Ahead ("return (".toList ++ (s ++ rest)) :=
    ahead_quiet hquiet _ (Or.inl (by decide)) (by decide)
  refine ⟨mask language (s ++ rest), ?_⟩
  rw [List.append_assoc _ _ rest, List.append_assoc _ s, (hcode.append_quiet hgap).mask_append hahead,
    mask_quiet hquiet]

/-- The lines of an effect with a statement before the brace, as texts. What is kept and the blanks
after it come before the brace and end in code; the blanks that are put in are blanks of the lines. -/
structure Effect.Texts (w : Window) (e : Effect) (statement : List Char)
    (replaced suggested : List (List Char)) (kept blanks gap gap' rest : List Char) : Prop where
  replaced_eq : Window.joined replaced = kept ++ blanks ++ rest
  suggested_eq : Window.joined suggested = kept ++ gap ++ statement ++ gap' ++ rest
  width_eq : width (kept ++ blanks) = e.close
  masked_eq : cut 0 e.close e.masked = mask w.language (kept ++ blanks)
  inCode : InCode w.language kept
  blank : (blanks ++ gap).all isLineBlank = true
  blank_after : gap'.all isBlank = true
  after_ne_nil : gap' ≠ []
  from_lines : ∀ c ∈ blanks ++ gap, c = ' ' ∨ ∃ l ∈ replaced, c ∈ l
  rest_ne_nil : rest ≠ []
  ends : ∀ c ∈ (kept ++ gap).getLast?, isBlank c = true

namespace Effect

variable {earlier : List (List Char)} {front back statement : List Char}

theorem Cut.plain_front (h : Cut w e earlier front back) : '\n' ∉ front := fun hmem =>
  h.plain (front ++ back) (by simp) (List.mem_append_left _ hmem)

theorem Cut.back_ne_nil (h : Cut w e earlier front back) : back ≠ [] := by
  rintro rfl
  obtain ⟨kind, hkind⟩ := h.closer
  cases hkind

/-- Where the brace starts its line the lines before it are kept. -/
theorem Cut.texts_own (h : Cut w e earlier front back) (hblank : front.all isBlank = true)
    {indent : List Char} (hindent : indent.all isBlank = true)
    (hfrom : ∀ c ∈ indent, c = ' ' ∨ ∃ l ∈ earlier ++ [front ++ back], c ∈ l) :
    Texts w e statement (earlier ++ [front ++ back])
      (earlier ++ [indent ++ statement, front ++ back]) (ended earlier) front indent
      ('\n' :: front) back where
  replaced_eq := by rw [joined_concat, List.append_assoc]
  suggested_eq := by
    rw [joined_append, joined_cons_cons, joined_singleton]
    simp only [List.append_assoc, List.cons_append]
  width_eq := h.width_eq
  masked_eq := h.masked_eq
  inCode := inCode_of_append_quiet h.inCode (quiet_of_blanks hblank h.plain_front)
  blank := by
    have hplain : '\n' ∉ indent := fun hmem => by
      rcases hfrom _ hmem with hc | ⟨l, hl, hmem⟩
      · cases hc
      · exact h.plain l hl hmem
    rw [List.all_append, all_isLineBlank hblank h.plain_front, all_isLineBlank hindent hplain]
    rfl
  blank_after := by
    rw [List.all_cons, hblank]
    rfl
  after_ne_nil := List.cons_ne_nil _ _
  from_lines c hc := by
    rcases List.mem_append.mp hc with hc | hc
    · exact Or.inr ⟨front ++ back, by simp, List.mem_append_left _ hc⟩
    · exact hfrom c hc
  rest_ne_nil := h.back_ne_nil
  ends c hc := by
    rw [List.getLast?_append] at hc
    cases hend : indent.getLast? with
    | some b =>
      rw [hend, Option.some_or] at hc
      obtain rfl := Option.some.inj hc
      exact List.all_eq_true.mp hindent b (List.mem_of_getLast? hend)
    | none =>
      rw [hend, Option.none_or] at hc
      rw [eq_newline_of_getLast?_ended hc]
      decide

/-- Else what is before the brace is kept up to the blanks at its end. -/
theorem Cut.exists_texts (h : Cut w e earlier front back) : ∃ blanks,
    Texts w e statement (earlier ++ [front ++ back])
      (earlier ++ [trimEnd front ++ [' '] ++ statement ++ [' '] ++ back])
      (ended earlier ++ trimEnd front) blanks [' '] [' '] back := by
  obtain ⟨blanks, hsplit, hblank⟩ := dropEndWhile_append isBlank front
  change front = trimEnd front ++ blanks at hsplit
  have hplain : '\n' ∉ blanks := fun hmem =>
    h.plain_front (hsplit ▸ List.mem_append_right _ hmem)
  have hkept : ended earlier ++ front = ended earlier ++ trimEnd front ++ blanks := by
    conv_lhs => rw [hsplit]
    rw [List.append_assoc]
  refine ⟨blanks, ?_, ?_, hkept ▸ h.width_eq, hkept ▸ h.masked_eq,
    inCode_of_append_quiet (hkept ▸ h.inCode) (quiet_of_blanks hblank hplain), ?_, by decide,
    by decide, fun c hc => ?_, h.back_ne_nil, fun c hc => ?_⟩
  · rw [joined_concat, ← hkept, List.append_assoc]
  · rw [joined_concat]
    simp only [List.append_assoc]
  · rw [List.all_append, all_isLineBlank hblank hplain]
    decide
  · rcases List.mem_append.mp hc with hc | hc
    · exact Or.inr ⟨front ++ back, by simp,
        List.mem_append_left _ (hsplit ▸ List.mem_append_right _ hc)⟩
    · exact Or.inl (List.mem_singleton.mp hc)
  · obtain rfl : ' ' = c := by simpa using hc
    decide

theorem exists_texts (hw : w.Plain) (he : (Effect.at? w).Gives e)
    {replaced suggested : List (List Char)}
    (h : (e.insertBeforeClose w statement).Gives (replaced, suggested)) :
    ∃ kept blanks gap gap' rest,
      Texts w e statement replaced suggested kept blanks gap gap' rest := by
  obtain ⟨earlier, front, back, rfl, hcut, hinserted⟩ := Effect.exists_inserted hw he h
  rcases hinserted with ⟨hblank, indent, hindent, hfrom, rfl⟩ | rfl
  · exact ⟨_, _, _, _, _, hcut.texts_own hblank hindent hfrom⟩
  · obtain ⟨blanks, htexts⟩ := @Cut.exists_texts _ _ _ _ _ statement hcut
    exact ⟨_, _, _, _, _, htexts⟩

end Effect

/-- A cleanup that is drafted stands in the lines of the effect with blanks around it, and the mask
shows its `return`. It is a statement of its own exactly if the code before the brace that closes
the effect ends, blanks aside, in a semicolon, a brace or a line break. Of blanks it is enough to
skip spaces and tabs where the lines have no others. -/
theorem effectCleanup_apart (column : Option Nat) (hw : w.Plain) {d : Draft}
    (h : (effectCleanup column w).Gives d) :
    ∃ e calls statement kept blanks gap gap' rest later,
      (Effect.at? w).Gives e ∧ cleanupCalls e = .ok calls ∧
      cleanupStatement? calls = some statement ∧
      Window.joined d.replaced = kept ++ blanks ++ rest ∧ width (kept ++ blanks) = e.close ∧
      Window.joined d.suggested = kept ++ gap ++ statement ++ gap' ++ rest ∧
      (blanks ++ gap ++ gap').all isBlank = true ∧
      mask w.language (Window.joined d.suggested) =
        mask w.language (kept ++ gap) ++ "return".toList ++ later ∧
      isApart isLineBlank (mask w.language (kept ++ gap)) =
        isApart isLineBlank (cut 0 e.close e.masked) ∧
      ((∀ l ∈ d.replaced, ∀ c ∈ l, isBlank c = true → isSpaceOrTab c = true) →
        isApart isSpaceOrTab (mask w.language (kept ++ gap)) =
          isApart isSpaceOrTab (cut 0 e.close e.masked)) := by
  simp only [effectCleanup, gives_bind, gives_of, gives_lift, gives_pure] at h
  obtain ⟨e, he, calls, hcalls, statement, hstatement, ⟨replaced, suggested⟩, hlines, rfl⟩ := h
  obtain ⟨kept, blanks, gap, gap', rest, hold, hnew, hwidth, hbefore, hcode, hblank, hgap', -,
    hfrom, -⟩ := Effect.exists_texts hw he hlines
  have hquiet := all_isQuiet_of_lineBlank hblank
  have hall := all_isBlank_of_lineBlank hblank
  rw [List.all_append, Bool.and_eq_true] at hquiet
  obtain ⟨later, hmask⟩ := mask_statement hcode hquiet.2
    (starts_of_cleanupStatement? hstatement) (gap' ++ rest)
  rw [← List.append_assoc, ← hnew, show "return (".toList = "return".toList ++ " (".toList from rfl,
    List.append_assoc "return".toList, ← List.append_assoc] at hmask
  have hsame {skip : Char → Bool} (hall : (blanks ++ gap).all skip = true) :
      isApart skip (mask w.language (kept ++ gap)) = isApart skip (cut 0 e.close e.masked) := by
    rw [List.all_append, Bool.and_eq_true] at hall
    rw [hbefore, isApart_mask hcode hquiet.2 hall.2, isApart_mask hcode hquiet.1 hall.1]
  refine ⟨e, calls, statement, kept, blanks, gap, gap', rest, _, he, hcalls, hstatement, hold,
    hwidth, hnew, by rw [List.all_append, hall, hgap']; rfl, hmask, hsame hblank,
    fun hspaces => hsame (List.all_eq_true.mpr fun c hc => ?_)⟩
  rcases hfrom c hc with rfl | ⟨l, hl, hmem⟩
  · rfl
  · exact hspaces l hl c hmem (List.all_eq_true.mp hall c hc)

/-! ### Effects of one line -/

/-- A web window that shows one line. -/
def lineWindow (line : String) : Window :=
  { path := ⟨"/app/a.jsx"⟩, language := .javaScript, firstLine := 1, lines := [line.toList]
    focus := 1, lineEnding := "\n" }

/-- The draft that returns a cleanup from an effect of one line. -/
def lineCleanup (line suggested : String) : Draft :=
  { firstLine := 1, replaced := [line.toList], suggested := [suggested.toList]
    title := "Return a cleanup function from the effect"
    description := "The effect's teardown now undoes what the effect started, so nothing keeps "
      ++ "firing after the component unmounts or the dependencies change."
    alternatives := [{ title := "Move the subscription into a custom hook"
                       tradeoff := "Reusable and testable, but a larger refactor than a one-line cleanup"
                       confidence := 40, suggestedCode := none }] }

theorem plain_lineWindow {line : String} (h : '\n' ∉ line.toList) : (lineWindow line).Plain := by
  intro l hl
  rw [List.mem_singleton.mp hl]
  exact h

/-- An effect whose last statement has a semicolon, and the effect with its cleanup. -/
def closedLines : String × String :=
  ("useEffect(() => \x7b const s = api.subscribe(f); \x7d, []);",
    "useEffect(() => \x7b const s = api.subscribe(f); return () => s.unsubscribe(); \x7d, []);")

/-- After a semicolon the cleanup is a statement of its own. -/
theorem effectCleanup_apart_closed : ∃ w d, w.Plain ∧ (effectCleanup (some 1) w).Gives d ∧
    d = lineCleanup closedLines.1 closedLines.2 ∧
    ∃ e calls statement kept blanks gap gap' rest later,
      (Effect.at? w).Gives e ∧ cleanupCalls e = .ok calls ∧
      cleanupStatement? calls = some statement ∧
      Window.joined d.replaced = kept ++ blanks ++ rest ∧ width (kept ++ blanks) = e.close ∧
      Window.joined d.suggested = kept ++ gap ++ statement ++ gap' ++ rest ∧
      (blanks ++ gap ++ gap').all isBlank = true ∧
      mask w.language (Window.joined d.suggested) =
        mask w.language (kept ++ gap) ++ "return".toList ++ later ∧
      isApart isSpaceOrTab (mask w.language (kept ++ gap)) = true := by
  -- The lines are spelt out, for the kernel is slow to decode a text each time it is looked at.
  have holdLine : closedLines.1.toList = _ := String.toList_ofList
  have hnewLine : closedLines.2.toList = _ := String.toList_ofList
  have hplain : (lineWindow closedLines.1).Plain := plain_lineWindow (by rw [holdLine]; decide)
  have hgives : (effectCleanup (some 1) (lineWindow closedLines.1)).Gives
      (lineCleanup closedLines.1 closedLines.2) := by
    rw [Gives, lineWindow, lineCleanup, holdLine, hnewLine]
    decide +kernel
  obtain ⟨e, calls, statement, kept, blanks, gap, gap', rest, later, he, hcalls, hstatement, hold,
    hwidth, hnew, hblank, hmask, -, hapart⟩ := effectCleanup_apart (some 1) hplain hgives
  have hbefore : (Effect.at? (lineWindow closedLines.1)).run.map
      (Option.map fun e => isApart isSpaceOrTab (cut 0 e.close e.masked)) = .ok (some true) := by
    rw [lineWindow, holdLine]
    decide +kernel
  rw [he] at hbefore
  refine ⟨_, _, hplain, hgives, rfl, e, calls, statement, kept, blanks, gap, gap', rest, later, he,
    hcalls, hstatement, hold, hwidth, hnew, hblank, hmask, (hapart ?_).trans ?_⟩
  · intro l hl c hc hb
    have hspaces : closedLines.1.toList.all (fun c => !isBlank c || isSpaceOrTab c) = true := by
      rw [holdLine]
      decide
    rw [show l = closedLines.1.toList from List.mem_singleton.mp hl] at hc
    simpa [hb] using List.all_eq_true.mp hspaces c hc
  · exact Option.some.inj (Except.ok.inj hbefore)

/-- An effect whose last statement has no semicolon, and the effect with its cleanup. -/
def openLines : String × String :=
  ("useEffect(() => \x7b const s = api.subscribe(f) \x7d, []);",
    "useEffect(() => \x7b const s = api.subscribe(f) return () => s.unsubscribe(); \x7d, []);")

/-- After a statement without a semicolon the cleanup goes on in the same statement: the only
`return` of the draft comes after a parenthesis. -/
theorem not_effectCleanup_apart : ∃ w d, w.Plain ∧ (effectCleanup (some 1) w).Gives d ∧
    d = lineCleanup openLines.1 openLines.2 ∧ has (Window.joined d.replaced) "return" = false ∧
    ∃ front later, mask w.language (Window.joined d.suggested) = front ++ "return".toList ++ later ∧
      isApart isSpaceOrTab front = false ∧ front.getLast? = some ' ' ∧
      (front.dropLast).getLast? = some ')' := by
  refine ⟨lineWindow openLines.1, _, plain_lineWindow (by decide), ?_, rfl, by decide,
    "useEffect(() => \x7b const s = api.subscribe(f) ".toList,
    " () => s.unsubscribe(); \x7d, []);".toList, by decide +kernel, by decide, by decide, by decide⟩
  have holdLine : openLines.1.toList = _ := String.toList_ofList
  have hnewLine : openLines.2.toList = _ := String.toList_ofList
  rw [Gives, lineWindow, lineCleanup, holdLine, hnewLine]
  decide +kernel

end Synthesis

end Mend
