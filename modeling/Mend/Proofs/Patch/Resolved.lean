import Mend.Proofs.Patch.Sanity
import Mend.Proofs.Rule.Basic
import Mend.Proofs.Synthesis.Teardown

/-!
# Leaks that are resolved

A candidate that returns a cleanup from an effect replaces lines of the file by the same lines with
the cleanup. What the mask shows of them in the file is what it shows of them in the window, but for
carriage returns (`Patch.exists_linesAt`). So the template and the rule mean the same effect if the
line starts in code and no other effect of the line starts before the issue's, and the rule does not
report it any more if it counts the braces of the body right (`Candidate.cleanup_resolved`). The
template does not look at the column of the issue: of an effect in another one on the same line it
mends the outer one (`Candidate.not_cleanup_resolved`).
-/

namespace Mend

open Text Mask React

/-! ## Lines in a patched text -/

namespace Patch

variable {language : Language} {content : List Char} {front place back : List (List Char)}
  {last : List Char}

/-- In what the mask shows of a text, what it shows of some lines is an excerpt from a line on. -/
structure LinesAt (language : Language) (text start lines : List Char) (line : Nat) : Prop where
  excerpt : Excerpt (mask language text) start (mask language lines)
  lineOf_eq : (LineIndex.of text).lineOf (width start) = line
  columnOf_eq : (LineIndex.of text).columnOf (width start) = 1

/-- Where an effect in the first of the lines stands in the text. -/
theorem LinesAt.position {text start lines u after : List Char} {line : Nat} {x : List Char}
    (h : LinesAt language text start lines line) (hx : Opens (mask language lines) x u after)
    (hplain : '\n' ∉ x) : (LineIndex.of text).lineOf (width (start ++ x)) = line ∧
      (LineIndex.of text).columnOf (width (start ++ x)) = width x + 1 := by
  obtain ⟨hexcerpt, hline, hcolumn⟩ := h
  obtain ⟨v, later, rest, hopens, -⟩ := hx.of_excerpt hplain hexcerpt
  rw [← of_mask language text, hopens.text_eq] at hline hcolumn ⊢
  rw [LineIndex.lineOf_append hplain, LineIndex.columnOf_append hplain, hline, hcolumn, Nat.add_comm]
  exact ⟨rfl, rfl⟩

/-- Lines that come after whole lines, and start in code. -/
theorem linesAt {ps : List (List Char)} {lines s rest : List Char} (hended : ∀ p ∈ ps, Ended p)
    (hcode : InCode language ps.flatten) (h : SameLines lines s) (hrest : Ahead rest) :
    LinesAt language (ps.flatten ++ (lines ++ rest)) (mask language ps.flatten) s (ps.length + 1) := by
  obtain ⟨m, hm⟩ := exists_mask_append language lines hrest
  have hblank : ∀ c ∈ ps.flatten.getLast?, isBlank c = true := by
    intro c hc
    rcases List.eq_nil_or_concat ps with rfl | ⟨qs, q, rfl⟩
    · cases hc
    · obtain ⟨l, -, rfl⟩ := hended q (by simp)
      obtain rfl : '\n' = c := by simpa using hc
      decide
  have hline := LineIndex.lineOf_lines hended List.not_mem_nil (lines ++ rest)
  have hcolumn := LineIndex.columnOf_lines hended List.not_mem_nil (lines ++ rest)
  rw [List.append_nil] at hline hcolumn
  refine ⟨⟨⟨mask language lines, m, ?_, h.alike_mask.symm⟩, wordAfter_mask hblank⟩, ?_, ?_⟩
  · rw [fresh_of_ended hended hcode, hm]
  · rwa [← (aligned_mask language ps.flatten).1]
  · rwa [← (aligned_mask language ps.flatten).1]

/-- The old lines in the text and the new lines in the patched text start at the same line, after
the same text. -/
theorem exists_linesAt (locator : Locator) (language' : Language) {f : Fix}
    (hfits : FitsAt content f.line f.replacedCode.toList f.suggestedCode.toList)
    (hcode : InCode language (above content f.line))
    (hends : ['\r', '\n'] <:+: content → ∀ code ∈ [f.replacedCode, f.suggestedCode],
      ∀ l ∈ (rows code.toList).dropLast, l.getLast? ≠ some '\\') :
    ∃ text start, patched locator content f language' = (text, .exact) ∧
      LinesAt language content start f.replacedCode.toList f.line ∧
      LinesAt language text start f.suggestedCode.toList f.line := by
  obtain ⟨text, ps, old, new, rest, hpatched, hplaced⟩ :=
    exists_placed locator language' hfits hends
  rw [hplaced.above_eq] at hcode
  have hold := linesAt hplaced.ended hcode hplaced.sameLines_old hplaced.ahead
  have hnew := linesAt hplaced.ended hcode hplaced.sameLines_new hplaced.ahead
  rw [← hplaced.content_eq, hplaced.line_eq] at hold
  rw [← hplaced.text_eq, hplaced.line_eq] at hnew
  exact ⟨text, _, hpatched, hold, hnew⟩

end Patch

/-! ## Effects of the old and of the new text -/

namespace React

/-- The rule does not fail, and what it objects to is an effect that returns no cleanup. -/
theorem exists_of_leak {ctx : Context} {ds : List Detection}
    (hds : effectSubscriptionLeak.detect ctx = .ok ds) {d : Detection} (hd : d ∈ ds) :
    ∃ b ∈ effects ctx, d.offset = b.start ∧ hasCleanupReturn (ctx.bodyOf b) = false := by
  obtain rfl := Except.ok.inj hds
  obtain ⟨b, hb, hsome⟩ := List.mem_filterMap.mp hd
  simp only [Option.ite_none_right_eq_some, Bool.and_eq_true, Bool.not_eq_true',
    Option.some.injEq] at hsome
  obtain ⟨⟨-, hreturn⟩, rfl⟩ := hsome
  exact ⟨b, hb, rfl, hreturn⟩

/-- An issue tells where its effect starts. -/
theorem exists_of_leak_finding {ctx : Context} {found : List Finding}
    (hfound : effectSubscriptionLeak.findings ctx = .ok found) {f : Finding} (hf : f ∈ found) :
    ∃ b ∈ effects ctx, f.line = ctx.index.lineOf b.start ∧
      f.column = some (ctx.index.columnOf b.start) := by
  obtain ⟨ds, hds, rfl⟩ := Rule.findings_eq_ok hfound
  obtain ⟨d, hd, rfl⟩ := List.mem_map.mp hf
  obtain ⟨b, hb, hoffset, -⟩ := exists_of_leak hds hd
  exact ⟨b, hb, hoffset ▸ rfl, hoffset ▸ rfl⟩

/-- Nothing is said where every effect returns a cleanup. -/
theorem clears_of_hasCleanupReturn {path : Path} {text : List Char} {platform : Platform}
    {ctx : Context} (hctx : Context.of? path (String.ofList text) platform = some ctx)
    (hindex : ctx.index = .of text) {offset : Nat}
    (h : ∀ b ∈ effects ctx, b.start = offset → hasCleanupReturn (ctx.bodyOf b) = true) :
    effectSubscriptionLeak.Clears path text platform ((LineIndex.of text).lineOf offset)
      (some ((LineIndex.of text).columnOf offset)) := by
  obtain ⟨ds, hds⟩ : ∃ ds, effectSubscriptionLeak.detect ctx = .ok ds := ⟨_, rfl⟩
  refine Context.clears_of_detect hctx hindex hds fun d hd hoffset => ?_
  obtain ⟨b, hb, hstart, hreturn⟩ := exists_of_leak hds hd
  rw [h b hb (hstart.symm.trans hoffset)] at hreturn
  cases hreturn

end React

/-! ## Candidates -/

namespace Candidate

/-- An issue about an effect and the candidate for it are such that the template and the rule mean
the same effect, and the rule sees the cleanup. -/
structure Suits (c : Candidate) (ctx : Context) (issue : Issue) : Prop where
  /-- The line of the effect starts in code. -/
  starts : Mask.InCode ctx.language (above ctx.source issue.line)
  /-- No other effect of the line starts before it. -/
  first : ∀ b ∈ React.effects ctx, ctx.index.lineOf b.start = issue.line →
    ∀ column ∈ issue.column, column ≤ ctx.index.columnOf b.start
  /-- In its body no brace is opened right after a `return` below the top level. -/
  counted : ∀ b ∈ React.effects ctx, ctx.index.lineOf b.start = issue.line →
    issue.column = some (ctx.index.columnOf b.start) → React.Counted (ctx.bodyOf b)
  /-- In a text with carriage returns, no line of the effect ends in a backslash. -/
  ends : ['\r', '\n'] <:+: ctx.source → ∀ code ∈ [c.replacedCode, c.suggestedCode],
    ∀ l ∈ (rows code.toList).dropLast, l.getLast? ≠ some '\\'

/-- A candidate of the template for effects that leak puts a cleanup into the first effect of its
lines. -/
theorem exists_teardown {so : SynthesisOptions} {issue : Issue} {content : String} {c : Candidate}
    (hc : forIssue so issue.toFinding content = .ok (some c)) (hname : c.template = "effect-cleanup")
    {language : Language} (hlanguage : issue.file.language? = some language) :
    c.line = max issue.line 1 ∧ ∃ front u body,
      Synthesis.Teardown language c.replacedCode.toList c.suggestedCode.toList front u body := by
  obtain ⟨t, ht, d, hd, rfl⟩ := exists_draft hc
  have hmem := (List.mem_filter.mp ht).1
  have hbuild : t.build = Synthesis.effectCleanup := Template.build_of_name hmem hname rfl
  rw [hbuild] at hd
  have hwindow : (Window.of issue.file content issue.line so.before so.after).language = language := by
    rw [Window.of, hlanguage, Option.getD_some]
  have hdown := Synthesis.exists_teardown issue.column Window.plain_of hd
  rw [hwindow] at hdown
  refine ⟨(Synthesis.fits_effectCleanup _ Window.plain_of hd).firstLine_eq, ?_⟩
  simpa only [ofDraft, String.toList_ofList] using hdown

/-- A candidate that returns a cleanup from an effect resolves the issue: the rule does not fail on
the patched text, and says nothing at the issue's line and column. -/
theorem cleanup_resolved {path : Path} {content : String} {platform : Platform} {ctx : Context}
    (hctx : Context.of? path content platform = some ctx) {found : List Finding}
    (hfound : React.effectSubscriptionLeak.findings ctx = .ok found) {issue : Issue}
    (hissue : issue.toFinding ∈ found) {so : SynthesisOptions} {c : Candidate}
    (hc : forIssue so issue.toFinding content = .ok (some c)) (hname : c.template = "effect-cleanup")
    (hsuits : c.Suits ctx issue) (options : Diff.Options) (id : String) (now : Time)
    (locator : Patch.Locator) (language : Language) :
    ∃ text, Patch.patched locator content.toList (c.toFix issue options id now) language =
        (text, .exact) ∧
      React.effectSubscriptionLeak.Clears path text platform issue.line issue.column := by
  obtain ⟨b, hb, hline, hcolumn⟩ := exists_of_leak_finding hfound hissue
  obtain ⟨hindex, hmasked⟩ := Context.of?_eq_some hctx
  obtain ⟨hlanguage, hsource⟩ : issue.file.language? = some ctx.language ∧
      ctx.source = content.toList := by
    rw [(Rule.of_mem_findings hfound hissue).2.1]
    obtain ⟨l, hl, rfl⟩ := Option.map_eq_some_iff.mp hctx
    exact ⟨hl, rfl⟩
  obtain ⟨hfirst, front, u, body, hdown⟩ := exists_teardown hc hname hlanguage
  have hpos : 1 ≤ issue.line := hline ▸ Nat.le_add_left 1 _
  rw [Nat.max_eq_left hpos] at hfirst
  have hstarts := hsuits.starts
  have hends := hsuits.ends
  rw [hsource] at hstarts hends
  obtain ⟨text, start, hpatched, hold, hnew⟩ := Patch.exists_linesAt
    (f := c.toFix issue options id now) locator language (fitsAt_of_forIssue hc)
    (show Mask.InCode ctx.language (above content.toList c.line) from hfirst ▸ hstarts) hends
  refine ⟨text, hpatched, ?_⟩
  obtain ⟨blanks, rest, -, hopens⟩ := hdown.before
  obtain ⟨blanks', later, -, -, hopens'⟩ := hdown.after
  have holdPosition := hold.position hopens hdown.plain
  have hnewPosition := hnew.position hopens' hdown.plain
  obtain ⟨hexcerpt, hstartLine, hstartColumn⟩ := hold
  rw [← hmasked] at hexcerpt
  rw [← hindex] at hstartLine hstartColumn holdPosition
  have hsame : ctx.index.lineOf (width start) = issue.line := hstartLine.trans hfirst
  -- The block that the issue is about is the effect that the template looks at.
  have hstart : b.start = width (start ++ front) :=
    hdown.start_eq (Context.indexed_of? hctx) hexcerpt hstartColumn hb (hline.symm.trans hsame.symm)
      fun b' hb' hline' => hsuits.first b' hb' (hline'.trans hsame) _ hcolumn
  have hcounted := hdown.counted hexcerpt hb hstart (hsuits.counted b hb hline.symm hcolumn)
  obtain ⟨ctx', hctx', -, hindex', hmasked'⟩ := Context.exists_of? hctx text
  have hnewExcerpt := hnew.excerpt
  rw [← hmasked'] at hnewExcerpt
  have hclears := React.clears_of_hasCleanupReturn hctx' hindex' fun b' hb' hstart' =>
    hdown.hasCleanupReturn hnewExcerpt hb' hstart' hcounted
  rw [hnewPosition.1, hnewPosition.2] at hclears
  rw [hcolumn, hstart, holdPosition.2, ← hfirst]
  exact hclears

/-! ### A file with carriage returns, and an effect in another one -/

/-- An effect that leaks, in lines with carriage returns. -/
def crlfText : String :=
  "useEffect(() => \x7b\r\n  const s = a.subscribe(f);\r\n\x7d, []);\r\n"

def crlfIssue : Issue := leakIssue 1 1 "useEffect(() => \x7b"

def crlfCandidate : Candidate :=
  leakCandidate 1 "useEffect(() => \x7b\n  const s = a.subscribe(f);\n\x7d, []);"
    ("useEffect(() => \x7b\n  const s = a.subscribe(f);\n  return () => s.unsubscribe();\n"
      ++ "\x7d, []);")

theorem cleanup_resolved_crlf :
    forIssue {} crlfIssue.toFinding crlfText = .ok (some crlfCandidate) ∧
      ∃ text, Patch.patched {} crlfText.toList (crlfCandidate.toFix crlfIssue {} "" ⟨0, 0⟩) .javaScript =
          (text, .exact) ∧
        React.effectSubscriptionLeak.Clears crlfIssue.file text .web crlfIssue.line crlfIssue.column := by
  -- The text is spelt out, for the kernel is slow to decode it each time it is looked at.
  have htext : crlfText.toList = _ := String.toList_ofList
  have hmade : forIssue {} crlfIssue.toFinding crlfText = .ok (some crlfCandidate) := by
    rw [forIssue, Window.of, htext]
    decide +kernel
  obtain ⟨ctx, hctx, hfound, hsuits⟩ : ∃ ctx, Context.of? crlfIssue.file crlfText .web = some ctx ∧
      React.effectSubscriptionLeak.findings ctx = .ok [crlfIssue.toFinding] ∧
      crlfCandidate.Suits ctx crlfIssue := by
    rw [Context.of?, htext]
    exact ⟨_, rfl, by decide +kernel, inCode_nil, by decide +kernel, by decide +kernel,
      fun _ => by decide +kernel⟩
  exact ⟨hmade, cleanup_resolved hctx hfound List.mem_cons_self hmade rfl hsuits {} "" ⟨0, 0⟩ {}
    .javaScript⟩

/-- An effect that leaks inside another one, which returns a cleanup of its own. -/
def nestedText : String :=
  "useEffect(() => \x7b useEffect(() => \x7b const s = a.subscribe(f); \x7d); return g; \x7d);"

/-- The outer effect with a second cleanup. -/
def nestedSuggestion : String :=
  "useEffect(() => \x7b useEffect(() => \x7b const s = a.subscribe(f); \x7d); return g; "
    ++ "return () => s.unsubscribe(); \x7d);"

/-- The outer effect gets a second cleanup, and the issue of the inner one stays. -/
theorem not_cleanup_resolved :
    let issue := leakIssue 1 19 nestedText
    let c := leakCandidate 1 nestedText nestedSuggestion
    (Context.of? issue.file nestedText .web).map React.effectSubscriptionLeak.findings =
        some (.ok [issue.toFinding]) ∧
      forIssue {} issue.toFinding nestedText = .ok (some c) ∧
      Patch.patched {} nestedText.toList (c.toFix issue {} "" ⟨0, 0⟩) .javaScript =
        (nestedSuggestion.toList, .exact) ∧
      ¬ React.effectSubscriptionLeak.Clears issue.file nestedSuggestion.toList .web issue.line
        issue.column := by
  intro issue c
  have htext : nestedText.toList = _ := String.toList_ofList
  refine ⟨?_, ?_, by decide +kernel, ?_⟩
  · rw [Context.of?, htext]
    decide +kernel
  · rw [forIssue, Window.of, htext]
    decide +kernel
  rintro ⟨ctx, found, hctx, hfound, hclear⟩
  have hreported : (Context.of? issue.file (String.ofList nestedSuggestion.toList) .web).map
      React.effectSubscriptionLeak.findings =
        some (.ok [(leakIssue 1 19 nestedSuggestion).toFinding]) := by
    rw [Context.of?, String.toList_ofList]
    decide +kernel
  rw [hctx, Option.map_some, hfound] at hreported
  obtain rfl := Except.ok.inj (Option.some.inj hreported)
  exact hclear _ List.mem_cons_self ⟨rfl, rfl⟩

end Candidate

end Mend
