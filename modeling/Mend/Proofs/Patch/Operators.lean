import Mend.Proofs.Patch.Replacement
import Mend.Proofs.Synthesis.Operators
import Mend.Proofs.Text.Position

/-!
# Operators that are mended

A candidate for an issue of a rule on operators changes the file at the issue's line and column and
nowhere else: the operator that stands there is exchanged for the one that mends it, in the text and
in what the mask shows of it. The rule does not fail on the patched file, and says nothing about it at
that line and column (`Candidate.operator_mended`).
-/

namespace Mend

open Text Mask

namespace Patch

/-- One line that is put in the place of another. -/
theorem patched_line (locator : Locator) (language : Language) (line new : List Char)
    {content : List Char} {f : Fix} (h : FitsAt content f.line f.replacedCode.toList f.suggestedCode.toList)
    (hold : f.replacedCode.toList = line) (hnew : f.suggestedCode.toList = new)
    (hline : '\n' ∉ line) (hplain : '\n' ∉ new) : ∃ (front : List (List Char)) (rest : List Char),
      (∀ p ∈ front, Ended p) ∧ front.length + 1 = f.line ∧ content = front.flatten ++ line ++ rest ∧
        patched locator content f language = (front.flatten ++ new ++ rest, .exact) := by
  obtain ⟨front, place, last, back, hpieces, hfront, hplace, hpatched⟩ :=
    patched_of_fitsAt locator language h
  rw [hold, rows_of_not_mem hline] at hplace
  rw [hnew, rows_of_not_mem hplain] at hpatched
  obtain rfl : place = [] := by
    have hlen := congrArg List.length hplace
    simpa using hlen
  rw [List.nil_append] at hpieces
  have hended : ∀ p ∈ front, Ended p := by
    rw [List.append_assoc] at hpieces
    exact ended_of_pieces_append hpieces (by simp)
  have hlast := stripTerminator_append
    (isPiece_of_mem_pieces (show last ∈ pieces content by simp [hpieces]))
  rw [show stripTerminator last = line by simpa using hplace] at hlast
  refine ⟨front, terminator last ++ back.flatten, hended, hfront, ?_, ?_⟩
  · conv_lhs => rw [← flatten_pieces content, hpieces, ← hlast]
    simp
  · rw [hpatched]
    simp [List.intercalate]

end Patch

namespace OperatorRule

variable {o : OperatorRule}

theorem head?_ne_of_shows (ho : o ∈ operatorRules) {s : List Char} (h : o.shows s = true) :
    s.head? ≠ some ' ' := by
  intro hhead
  obtain ⟨t, rfl⟩ : ∃ t, s = ' ' :: t := ⟨_, List.eq_cons_of_mem_head? hhead⟩
  simp only [operatorRules, List.mem_cons, List.not_mem_nil, or_false] at ho
  rcases ho with rfl | rfl | rfl | rfl | rfl | rfl | rfl <;> exact absurd h Bool.false_ne_true

/-- The mask shows a blank as it is where it shows code. -/
theorem any_isBlank_mask {language : Language} {s : List Char} (hn : s.head? ≠ some '\n')
    (h : s.head?.any isBlank = true) : (mask language s).head?.any isBlank = true := by
  cases s with
  | nil => cases h
  | cons c s =>
    have hquiet : [c].all isQuiet = true := Balance.quiet_of_inert
      (Synthesis.inert_of_blank (by simpa using h) (by simpa [eq_comm] using hn))
    have hmask := @mask_quiet language _ hquiet s
    rw [List.singleton_append] at hmask
    rw [hmask]
    exact h

/-- An operator in a text that the code shows at its offset, and the code with another one in its
place. -/
theorem mask_of_standsAt (ho : o ∈ operatorRules) {x : List Char × List Char} (hx : x ∈ mended)
    {language : Language} {pre post : List Char}
    (hcast : x.1 = "as".toList → post.head? ≠ some '\n' ∧ post.head?.any isBlank = true)
    (h : StandsAt o.shows (mask language (pre ++ x.1 ++ post)) (width pre)) :
    x ∈ o.mends ∧ mask language (pre ++ x.1 ++ post) = mask language pre ++ x.1 ++ mask language post ∧
      mask language (pre ++ x.2 ++ post) = mask language pre ++ x.2 ++ mask language post := by
  obtain ⟨mode, hmode⟩ := exists_mask_quiet language pre post
  have hquiet : ∀ x ∈ mended, (x.1.all isQuiet = true ∧ 2 ≤ x.1.length) ∧
      (x.2.all isQuiet = true ∧ 2 ≤ x.2.length) ∧ (hide x.1).head? = some ' ' := by decide
  obtain ⟨⟨hold, holdLength⟩, ⟨hnew, hnewLength⟩, hhidden⟩ := hquiet x hx
  have hmask := hmode x.1 hold holdLength
  obtain ⟨front, rest, hparts, hwidth, hshows⟩ := h
  have hrest : rest = mode.veil x.1 ++ mode.settled.shown language post := by
    rw [hmask, List.append_assoc] at hparts
    exact (append_inj_of_width hparts ((aligned_mask language pre).1.symm.trans hwidth.symm)).2.symm
  -- Something hidden starts with a space, and no rule reports that.
  obtain rfl : mode = .code := by
    by_contra hne
    have hveil : mode.veil x.1 = hide x.1 := by
      cases mode <;> first | rfl | exact absurd rfl hne
    refine head?_ne_of_shows ho hshows ?_
    rw [hrest, hveil, List.head?_append, hhidden, Option.some_or]
  rw [hrest] at hshows
  exact ⟨mem_mends ho hx (fun hword => any_isBlank_mask (hcast hword).1 (hcast hword).2) hshows, hmask,
    hmode x.2 hnew hnewLength⟩

/-- Where an operator is mended the rule says nothing any more. -/
theorem clears_mended (ho : o ∈ operatorRules) {path : Path} {content : String}
    {platform : Platform} {ctx : Context} (hctx : Context.of? path content platform = some ctx)
    {ds : List Detection} (hds : o.rule.detect ctx = .ok ds) {pre old new post later : List Char}
    (hmends : (old, new) ∈ o.mends) (hold : ctx.masked = mask ctx.language pre ++ old ++ later)
    (hnew : mask ctx.language (pre ++ new ++ post) = mask ctx.language pre ++ new ++ later) :
    o.rule.Clears path (pre ++ new ++ post) platform
      ((LineIndex.of (pre ++ new ++ post)).lineOf (width pre))
      (some ((LineIndex.of (pre ++ new ++ post)).columnOf (width pre))) := by
  obtain ⟨ctx', hctx', -, hindex, hmasked⟩ := Context.exists_of? hctx (pre ++ new ++ post)
  obtain ⟨ds', hds'⟩ := exists_detect_mended ho hds hmends hold (hmasked.trans hnew)
  refine Context.clears_of_detect hctx' hindex hds' fun d hd hoffset => ?_
  obtain ⟨front, rest, hparts, hwidth, hshows⟩ := standsAt_of_detect ho hds' d hd
  rw [hmasked, hnew, List.append_assoc] at hparts
  have hrest := (append_inj_of_width hparts
    ((aligned_mask ctx.language pre).1.symm.trans (hoffset.symm.trans hwidth.symm))).2
  rw [← hrest, shows_mended ho hmends] at hshows
  cases hshows

theorem kind_of_mem (ho : o ∈ operatorRules) :
    o.rule.kind = .typeMismatch ∨ o.rule.kind = .nullReference := by
  simp only [operatorRules, List.mem_cons, List.not_mem_nil, or_false] at ho
  rcases ho with rfl | rfl | rfl | rfl | rfl | rfl | rfl <;> decide

end OperatorRule

namespace Candidate

/-- A candidate for mixed types or a missing value exchanges an operator at the issue's column in the
issue's line, and its fix leaves the rest of the text alone. -/
theorem exists_exchange {so : SynthesisOptions} {issue : Issue} {content : String} {c : Candidate}
    (hc : forIssue so issue.toFinding content = .ok (some c))
    (hkind : issue.kind = .typeMismatch ∨ issue.kind = .nullReference) (options : Diff.Options)
    (id : String) (now : Time) (locator : Patch.Locator) (language : Language) :
    ∃ x ∈ OperatorRule.mended, ∃ (lines : List (List Char)) (front rest after : List Char),
      (∀ p ∈ lines, Ended p) ∧ '\n' ∉ front ++ rest ∧
      lines.length + 1 = max issue.line 1 ∧ issue.column = some (width front + 1) ∧
      (x.1 = "as".toList → rest.head?.any isBlank = true) ∧
      content.toList = lines.flatten ++ front ++ x.1 ++ (rest ++ after) ∧
      Patch.patched locator content.toList (c.toFix issue options id now) language =
        (lines.flatten ++ front ++ x.2 ++ (rest ++ after), .exact) := by
  have hfits := fitsAt_of_forIssue hc
  obtain ⟨t, ht, d, hd, rfl⟩ := exists_draft hc
  obtain ⟨hmem, hserves⟩ := List.mem_filter.mp ht
  have hsame : t.kind = issue.kind := by
    simp only [Template.serves, Bool.and_eq_true, decide_eq_true_eq] at hserves
    exact hserves.1
  have hdraft := Template.fits_of_mem hmem Window.plain_of hd
  obtain ⟨x, hx, front, rest, hreplaced, hsuggested, hcolumn, hcast⟩ :=
    Template.exchanges_of_mem hmem (hsame ▸ hkind) hd
  have hold : '\n' ∉ front ++ x.1 ++ rest :=
    Window.plain_of _ (hdraft.shows.subset (by simp [hreplaced]))
  have hsign : ∀ x ∈ OperatorRule.mended, '\n' ∉ x.2 := by decide
  simp only [List.mem_append, not_or] at hold
  obtain ⟨lines, after, hended, hlength, hcontent, hpatched⟩ :=
    Patch.patched_line (f := (ofDraft t d).toFix issue options id now) locator language
      (front ++ x.1 ++ rest) (front ++ x.2 ++ rest) hfits
      (by simp [toFix, ofDraft, hreplaced, joined_singleton])
      (by simp [toFix, ofDraft, hsuggested, joined_singleton]) (by simp [hold])
      (by simp [hold, hsign x hx])
  refine ⟨x, hx, lines, front, rest, after, hended, by simp [hold],
    hlength.trans hdraft.firstLine_eq, ?_, hcast, by simp [hcontent], by simp [hpatched]⟩
  obtain ⟨column, hissue, hoffset⟩ := Option.bind_eq_some_iff.mp hcolumn
  rw [Option.ite_none_left_eq_some, Option.some.injEq] at hoffset
  rw [hissue, ← hoffset.2, Nat.sub_add_cancel (by omega)]

/-- A candidate for an issue of a rule on operators exchanges the operator that stands at the issue's
line and column for the one that mends it. The patched text is the old one but for that, and what
the mask shows of it is the same but for that. The rule does not fail on the patched text, and says
nothing at that line and column. -/
theorem operator_mended {o : OperatorRule} (ho : o ∈ operatorRules) {path : Path} {content : String}
    {platform : Platform} {ctx : Context} (hctx : Context.of? path content platform = some ctx)
    {found : List Finding} (hfound : o.rule.findings ctx = .ok found) {issue : Issue}
    (hissue : issue.toFinding ∈ found) {so : SynthesisOptions} {c : Candidate}
    (hc : forIssue so issue.toFinding content = .ok (some c)) (options : Diff.Options) (id : String)
    (now : Time) (locator : Patch.Locator) (language : Language) :
    ∃ pre old new post later, (old, new) ∈ o.mends ∧ content.toList = pre ++ old ++ post ∧
      issue.line = (LineIndex.of content.toList).lineOf (width pre) ∧
      issue.column = some ((LineIndex.of content.toList).columnOf (width pre)) ∧
      Patch.patched locator content.toList (c.toFix issue options id now) language =
        (pre ++ new ++ post, .exact) ∧
      mask ctx.language content.toList = mask ctx.language pre ++ old ++ later ∧
      mask ctx.language (pre ++ new ++ post) = mask ctx.language pre ++ new ++ later ∧
      o.rule.Clears path (pre ++ new ++ post) platform issue.line issue.column := by
  obtain ⟨ds, hds, rfl⟩ := Rule.findings_eq_ok hfound
  obtain ⟨d, hd, hfinding⟩ := List.mem_map.mp hissue
  obtain ⟨hindex, hmasked⟩ := Context.of?_eq_some hctx
  have hkind : issue.kind = .typeMismatch ∨ issue.kind = .nullReference := by
    rw [← hfinding]
    exact OperatorRule.kind_of_mem ho
  obtain ⟨x, hx, lines, front, rest, after, hended, hplain, hlines, hcolumn, hcast, hcontent,
    hpatched⟩ := exists_exchange hc hkind options id now locator language
  rw [List.mem_append, not_or] at hplain
  -- The position of the operator is told by the text before it, which stays.
  have hposition (s : List Char) :
      (LineIndex.of (lines.flatten ++ front ++ s)).lineOf (width (lines.flatten ++ front)) =
        lines.length + 1 ∧
      (LineIndex.of (lines.flatten ++ front ++ s)).columnOf (width (lines.flatten ++ front)) =
        width front + 1 :=
    ⟨LineIndex.lineOf_lines hended hplain.1 s, LineIndex.columnOf_lines hended hplain.1 s⟩
  have hline : issue.line = lines.length + 1 := by
    have hpos : 1 ≤ issue.line := by
      rw [← hfinding]
      exact Nat.le_add_left 1 _
    omega
  have hat := hposition (x.1 ++ (rest ++ after))
  rw [← List.append_assoc, ← hcontent] at hat
  have hoffset : d.offset = width (lines.flatten ++ front) := by
    refine LineIndex.eq_of_position (s := content.toList) ?_ ?_
    · rw [hat.1, ← hline, ← hfinding, ← hindex]
      rfl
    · rw [hat.2, ← Option.some.injEq, ← hcolumn, ← hfinding, ← hindex]
      rfl
  have hstands := OperatorRule.standsAt_of_detect ho hds d hd
  rw [hmasked, hcontent, hoffset] at hstands
  have hblank (hword : x.1 = "as".toList) : (rest ++ after).head? ≠ some '\n' ∧
      (rest ++ after).head?.any isBlank = true := by
    obtain ⟨b, hb, hisBlank⟩ := (Option.any_eq_true _ _).mp (hcast hword)
    rw [List.head?_append, hb, Option.some_or]
    refine ⟨?_, hisBlank⟩
    rintro ⟨⟩
    exact hplain.2 (List.mem_of_mem_head? hb)
  obtain ⟨hmends, hold, hnew⟩ := OperatorRule.mask_of_standsAt ho hx hblank hstands
  have hclears := OperatorRule.clears_mended ho hctx hds hmends
    (by rw [hmasked, hcontent, hold]) hnew
  have hafter := hposition (x.2 ++ (rest ++ after))
  rw [← List.append_assoc] at hafter
  rw [hafter.1, hafter.2, ← hline, ← hcolumn] at hclears
  exact ⟨lines.flatten ++ front, x.1, x.2, rest ++ after, _, hmends, hcontent, hline.trans hat.1.symm,
    hcolumn.trans (congrArg some hat.2.symm), hpatched, hcontent ▸ hold, hnew, hclears⟩

/-! ### The second of two assertions -/

/-- Two assertions in a line, after a character of two bytes. -/
def chainText : String := "const é = a!.b!.c;\n"

/-- The issue of the second one. -/
def chainIssue : Issue :=
  { id := "", kind := .nullReference, severity := .medium, rule := "ts/non-null-assertion"
    platform := .web, file := ⟨"/app/a.ts"⟩, line := 1, column := some 16
    evidence := "const é = a!.b!.c;", title := "Non-null assertion on a possibly-null value"
    description := "A non-null assertion dereferences a value the type system says may be null "
      ++ "or undefined; at runtime this throws a TypeError."
    suggestion := some "Use optional chaining (?.) and handle the undefined case"
    detectedAt := ⟨0, 0⟩ }

/-- The candidate for it. -/
def chainCandidate : Candidate :=
  { template := "optional-chaining"
    title := "Use optional chaining instead of a non-null assertion"
    description := "The access short-circuits to null instead of crashing when the value is missing."
    confidence := 90, line := 1, replacedCode := "const é = a!.b!.c;"
    suggestedCode := "const é = a!.b?.c;"
    alternatives := [{ title := "Check for null first"
                       tradeoff := "Makes the null path explicit, at the cost of a branch"
                       confidence := 60, suggestedCode := none }] }

/-- The second assertion of a line is mended, and the first one stays. -/
theorem operator_mended_chain : ∃ o ∈ operatorRules,
    forIssue {} chainIssue.toFinding chainText = .ok (some chainCandidate) ∧
    ∃ pre old new post later, (old, new) ∈ o.mends ∧ chainText.toList = pre ++ old ++ post ∧
      chainIssue.line = (LineIndex.of chainText.toList).lineOf (width pre) ∧
      chainIssue.column = some ((LineIndex.of chainText.toList).columnOf (width pre)) ∧
      Patch.patched {} chainText.toList (chainCandidate.toFix chainIssue {} "" ⟨0, 0⟩) .typeScript =
        (pre ++ new ++ post, .exact) ∧
      mask .typeScript chainText.toList = mask .typeScript pre ++ old ++ later ∧
      mask .typeScript (pre ++ new ++ post) = mask .typeScript pre ++ new ++ later ∧
      o.rule.Clears chainIssue.file (pre ++ new ++ post) .web chainIssue.line chainIssue.column := by
  have ho : ⟨React.nonNullAssertion, (startsWith · "!."), [("!.".toList, "?.".toList)]⟩ ∈
      operatorRules := List.mem_cons_of_mem _ List.mem_cons_self
  obtain ⟨ctx, found, hctx, hlanguage, hfound, hissue⟩ : ∃ ctx found,
      Context.of? chainIssue.file chainText .web = some ctx ∧ ctx.language = .typeScript ∧
      React.nonNullAssertion.findings ctx = .ok found ∧ chainIssue.toFinding ∈ found :=
    ⟨_, [{ chainIssue.toFinding with column := some 13 }, chainIssue.toFinding], rfl, rfl,
      by decide +kernel, by decide +kernel⟩
  have hmade : forIssue {} chainIssue.toFinding chainText = .ok (some chainCandidate) := by
    decide +kernel
  exact ⟨_, ho, hmade, hlanguage ▸
    operator_mended ho hctx hfound hissue hmade {} "" ⟨0, 0⟩ {} .typeScript⟩

end Candidate

end Mend
