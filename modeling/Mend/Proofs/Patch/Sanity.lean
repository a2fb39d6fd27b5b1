import Mend.Proofs.Patch.Applier
import Mend.Proofs.Patch.Replacement
import Mend.Proofs.Synthesis.BlockBrackets
import Mend.Proofs.Synthesis.Brackets
import Mend.Scan

/-!
# Patched texts that stay balanced

A text is cut at the lines that a candidate replaces. The lines before these end in line feeds, so
they are read from code on if the lines before leave the lexer in code (`FitsAt.fresh_above`), and
what ends the last of them belongs to no mark in it (`ahead_terminator`). Then the balance of the
patched text is that of the old one, whatever a draft does to its line (`Draft.Keeps`) or puts into
its lines (`Draft.Retains.sanityCheck`, `Patch.Placed.sanityCheck_of_harmless`).

So a candidate of any template passes the check on the text that it was made for, if what its
template takes for code is code (`Candidate.TakesCode`), and applying its fix to that text does not
fail for its brackets (`Candidate.passes_check`). The conditions are needed: brackets that are put
after a comment at the end of the line are not seen (`Candidate.not_sanityCheck_patched`).
-/

namespace Mend

/-! ## Lines in a text -/

namespace Text

open Mask

variable {language : Language}

/-- Whole lines that leave the lexer in code. -/
theorem fresh_of_ended {ps : List (List Char)} (h : ∀ p ∈ ps, Ended p)
    (hcode : InCode language ps.flatten) : Fresh language ps.flatten := by
  rcases List.eq_nil_or_concat ps with rfl | ⟨qs, p, rfl⟩
  · exact fresh_of_quiet rfl
  · obtain ⟨l, -, rfl⟩ := h p (by simp)
    rw [List.concat_eq_append, List.flatten_append, List.flatten_singleton, ← List.append_assoc]
      at hcode ⊢
    exact hcode.fresh_line

/-- A quiet line with its ending is shown as it is. -/
theorem mask_quiet_line {u eol : List Char} (hu : u.all isQuiet = true) (heol : Patch.IsEnding eol)
    (s : List Char) : mask language (u ++ eol ++ s) = u ++ eol ++ mask language s := by
  rcases heol with rfl | rfl
  · rw [List.append_assoc, mask_quiet hu, List.singleton_append, mask_newline]
    simp
  · have hreturn : (u ++ ['\r']).all isQuiet = true := by
      rw [List.all_append, hu]
      decide
    have h := @mask_quiet language _ hreturn ('\n' :: s)
    rw [mask_newline] at h
    simpa using h

namespace Balance

/-- A wrapped line in a text. -/
theorem of_wrapped {p line new r : List Char} (hp : Fresh language p) (hr : Ahead r)
    (hline : InCode language line) (h : Wraps language line new)
    (hold : (Balance.of language (p ++ line ++ r)).underflow = false) :
    Balance.of language (p ++ new ++ r) = Balance.of language (p ++ line ++ r) := by
  rw [of_eq_after, of_eq_after, List.append_assoc, List.append_assoc, hp, hp,
    hline.mask_append hr, h.inCode.mask_append hr] at *
  simp only [after_append] at hold ⊢
  rw [h.after_eq _ (noted_start.after _) (underflow_of_after hold)]

/-- A line that is put before another. -/
theorem of_guarded {p guard r : List Char} (hp : Fresh language p)
    (hguard : ∀ s, mask language (guard ++ s) = guard ++ mask language s) (h : Encloses guard [])
    (hold : (Balance.of language (p ++ r)).underflow = false) :
    Balance.of language (p ++ (guard ++ r)) = Balance.of language (p ++ r) := by
  rw [of_eq_after, hp, after_append] at hold
  have hclosed := h _ _ (noted_start.after (mask language p)) hold
  rw [List.append_nil] at hclosed
  rw [of_eq_after, of_eq_after, hp, hp, hguard, after_append, hclosed, after_append]

end Balance

end Text

/-! ## Drafts for one line -/

open Text Mask

namespace Draft

variable {language : Language} {column : Option Nat} {p line : List Char} {d : Draft}

/-- The draft replaces one line, and a text that is balanced with the old line after `p` is balanced
with the new lines there. -/
structure Keeps (language : Language) (p line : List Char) (d : Draft) : Prop where
  replaced_eq : d.replaced = [line]
  suggested_ne_nil : d.suggested ≠ []
  plain : '\n' ∉ line → ∀ l ∈ d.suggested, '\n' ∉ l
  of_eq : ∀ eol r, Patch.IsEnding eol → Ahead r →
    (Balance.of language (p ++ line ++ r)).underflow = false →
    Balance.of language (p ++ List.intercalate eol d.suggested ++ r) =
      Balance.of language (p ++ line ++ r)

theorem keeps_of_line {new : List Char} (hreplaced : d.replaced = [line])
    (hsuggested : d.suggested = [new]) (hnewline : '\n' ∈ new → '\n' ∈ line)
    (h : ∀ r, Ahead r → (Balance.of language (p ++ line ++ r)).underflow = false →
      Balance.of language (p ++ new ++ r) = Balance.of language (p ++ line ++ r)) :
    d.Keeps language p line where
  replaced_eq := hreplaced
  suggested_ne_nil := by simp [hsuggested]
  plain hplain l hl := by
    rw [hsuggested, List.mem_singleton] at hl
    exact fun hmem => hplain (hnewline (hl ▸ hmem))
  of_eq eol r _ hr hold := by
    rw [hsuggested, show List.intercalate eol [new] = new by simp]
    exact h r hr hold

theorem Swaps.keeps (h : d.Swaps) (language : Language) (p : List Char) :
    ∃ line, d.Keeps language p line := by
  obtain ⟨line, new, hreplaced, hsuggested, hswap⟩ := h
  exact ⟨line, keeps_of_line hreplaced hsuggested hswap.newline fun r _ _ =>
    hswap.after_eq language p r {} Balance.noted_start⟩

theorem Wraps.keeps (h : d.Wraps language column) (hp : Fresh language p)
    (hends : ∀ line, d.replaced = [line] →
      InCode language line ∧ ReachedInCode language column line) :
    ∃ line, d.Keeps language p line := by
  obtain ⟨line, new, hreplaced, hsuggested, hswap | hwraps⟩ := h
  · exact Swaps.keeps ⟨line, new, hreplaced, hsuggested, hswap⟩ language p
  · obtain ⟨hline, hreached⟩ := hends line hreplaced
    have hwraps := hwraps hline hreached
    exact ⟨line, keeps_of_line hreplaced hsuggested hwraps.newline fun r hr hold =>
      Balance.of_wrapped hp hr hline hwraps hold⟩

theorem Guards.keeps (h : d.Guards) (hp : Fresh language p) : ∃ line, d.Keeps language p line := by
  obtain ⟨line, guard, hreplaced, hsuggested, hquiet, hencloses⟩ := h
  refine ⟨line, hreplaced, by simp [hsuggested], fun hplain l hl => ?_, fun eol r heol hr hold => ?_⟩
  · rw [hsuggested] at hl
    rcases List.mem_cons.mp hl with rfl | hl
    · exact fun hmem => absurd (List.all_eq_true.mp hquiet _ hmem) (by decide)
    · rwa [List.mem_singleton.mp hl]
  · have hjoined : List.intercalate eol [guard, line] = guard ++ eol ++ line := by
      simp [List.intercalate]
    have hbrackets : Balance.Encloses (guard ++ eol) [] := by
      have heolBrackets : eol.filter Balance.isBracket = [] := by
        rcases heol with rfl | rfl <;> decide
      exact hencloses.of_filter (by rw [List.filter_append, heolBrackets, List.append_nil]) rfl
    rw [List.append_assoc] at hold
    rw [hsuggested, hjoined, List.append_assoc, List.append_assoc (guard ++ eol),
      Balance.of_guarded hp (mask_quiet_line hquiet heol) hbrackets hold, List.append_assoc]

end Draft

/-! ## Candidates for one line -/

/-- The templates that change a part of a line in its place. -/
def Template.inPlace : List String :=
  ["lifecycle-scope", "strict-equality", "conditional-cast", "optional-chaining",
   "kotlin-safe-call", "weak-delegate"]

/-- The templates that change several lines. -/
def Template.ofBlocks : List String :=
  ["effect-cleanup", "effect-mount-guard", "weak-self-capture"]

/-- A template for one line changes it in its place, or wraps it, or puts a guard before it. -/
theorem Template.changes_of_mem {t : Template} (ht : t ∈ all) (hname : t.name ∉ ofBlocks)
    {w : Window} (hw : w.Plain) {column : Option Nat} {d : Draft}
    (h : (t.build column w).Gives d) (language : Language) :
    d.Swaps ∨ t.name ∉ inPlace ∧ (d.Wraps language column ∨ d.Guards) := by
  simp only [all, List.mem_cons, List.not_mem_nil, or_false] at ht
  rcases ht with rfl | rfl | rfl | rfl | rfl | rfl | rfl | rfl | rfl | rfl | rfl | rfl | rfl | rfl
  · exact absurd (by decide) hname
  · exact Or.inl (Synthesis.swaps_lifecycleScope column h)
  · exact absurd (by decide) hname
  · exact Or.inr ⟨by decide, Or.inr (Synthesis.guards_mountedGuard column hw h)⟩
  · exact Or.inr ⟨by decide, Or.inl (Synthesis.wraps_mainThreadDispatch column hw h)⟩
  · exact Or.inr ⟨by decide, Or.inl (Synthesis.wraps_setStateCall column hw h)⟩
  · exact Or.inr ⟨by decide, Or.inl (Synthesis.wraps_liveDataPostValue column hw h)⟩
  · exact Or.inl (Synthesis.swaps_strictEquality column h)
  · exact Or.inl (Synthesis.swaps_conditionalCastSwift column h)
  · exact Or.inl (Synthesis.swaps_conditionalCastKotlin column h)
  · exact Or.inl (Synthesis.swaps_optionalChaining column h)
  · exact Or.inl (Synthesis.swaps_kotlinSafeCall column h)
  · exact absurd (by decide) hname
  · exact Or.inl (Synthesis.swaps_weakDelegate column hw h)

theorem FitsAt.fresh_above {language : Language} {content old new : List Char} {line : Nat}
    (h : FitsAt content line old new) (hcode : InCode language (above content line)) :
    Fresh language (above content line) := by
  refine fresh_of_ended (ended_of_pieces_append (List.take_append_drop _ _).symm ?_) hcode
  intro hnil
  have hlines := h.lines
  rw [← List.map_drop, hnil, List.map_nil, List.take_nil] at hlines
  exact rows_ne_nil old hlines.symm

/-- A fix for one line passes the check on a text that it fits into, if its draft keeps the balance
there. -/
theorem Draft.Keeps.sanityCheck {language : Language} {content line : List Char} {d : Draft}
    {f : Fix} (h : d.Keeps language (above content f.line) line) (hplain : '\n' ∉ line)
    (hfits : FitsAt content f.line f.replacedCode.toList f.suggestedCode.toList)
    (hold : f.replacedCode.toList = Window.joined d.replaced)
    (hnew : f.suggestedCode.toList = Window.joined d.suggested) (locator : Patch.Locator) :
    sanityCheck language content (Patch.patched locator content f language).1 = .ok () := by
  obtain ⟨front, place, last, back, hpieces, hfront, hplace, hpatched⟩ :=
    Patch.patched_of_fitsAt locator language hfits
  rw [hold, h.replaced_eq, joined_singleton, rows_of_not_mem hplain] at hplace
  rw [hnew, show rows (Window.joined d.suggested) = d.suggested from
    rows_intercalate h.suggested_ne_nil (h.plain hplain)] at hpatched
  obtain rfl : place = [] := by
    have hlen := congrArg List.length hplace
    simpa using hlen
  rw [List.nil_append] at hpieces
  have habove : above content f.line = front.flatten :=
    above_of_pieces (hpieces.trans (List.append_assoc _ _ _)) hfront
  have hcontent : content = front.flatten ++ line ++ (Patch.terminator last ++ back.flatten) := by
    rw [← show stripTerminator last = line by simpa using hplace, List.append_assoc]
    exact @Patch.eq_append_of_pieces _ _ front [] back hpieces
  have hkept := h.of_eq _ _ (Patch.isEnding_lineEnding content) (ahead_terminator hpieces)
  rw [habove, ← hcontent] at hkept
  refine sanityCheck_of_eq fun hbalanced => ?_
  rw [hpatched, ← hkept (Balance.underflow_of_isBalanced hbalanced)]
  simp only [List.append_assoc]

namespace Candidate

/-- The lines before the candidate's leave the lexer in code, and so do what comes before the issue
in its line and the line as a whole. -/
structure InCode (language : Language) (content : List Char) (column : Option Nat)
    (c : Candidate) : Prop where
  starts : Mask.InCode language (above content c.line)
  reached : Draft.ReachedInCode language column c.replacedCode.toList
  ends : Mask.InCode language c.replacedCode.toList

/-- The candidate of a draft for one line passes the check, if the draft keeps the balance. -/
theorem sanityCheck_of_keeps {t : Template} {d : Draft} {content : String} {language : Language}
    (hfits : FitsAt content.toList (ofDraft t d).line (ofDraft t d).replacedCode.toList
      (ofDraft t d).suggestedCode.toList) (hplain : ∀ l ∈ d.replaced, '\n' ∉ l)
    (h : ∃ line, d.Keeps language (above content.toList (ofDraft t d).line) line) (issue : Issue)
    (options : Diff.Options) (id : String) (now : Time) (locator : Patch.Locator) :
    sanityCheck language content.toList (Patch.patched locator content.toList
      ((ofDraft t d).toFix issue options id now) language).1 = .ok () := by
  obtain ⟨line, hkeeps⟩ := h
  exact hkeeps.sanityCheck (f := toFix (ofDraft t d) issue options id now)
    (hplain line (by simp [hkeeps.replaced_eq])) hfits String.toList_ofList String.toList_ofList locator

/-- A candidate for one line passes the check on the text that it was made for. Where it changes a
part of the line in its place nothing is asked of the text; else the issue has to stand in code, and
the line has to start and to end in code. -/
theorem sanityCheck_patched {o : SynthesisOptions} {issue : Issue} {content : String} {c : Candidate}
    (h : forIssue o issue.toFinding content = .ok (some c)) {language : Language}
    (hlines : c.template ∉ Template.ofBlocks)
    (hcode : c.template ∈ Template.inPlace ∨ c.InCode language content.toList issue.column)
    (options : Diff.Options) (id : String) (now : Time) (locator : Patch.Locator) :
    sanityCheck language content.toList
      (Patch.patched locator content.toList (c.toFix issue options id now) language).1 = .ok () := by
  have hfits := fitsAt_of_forIssue h
  obtain ⟨t, ht, d, hd, rfl⟩ := exists_draft h
  have hmem := (List.mem_filter.mp ht).1
  have hshows := (Template.fits_of_mem hmem Window.plain_of hd).shows
  have hplain : ∀ l ∈ d.replaced, '\n' ∉ l := fun l hl => Window.plain_of l (hshows.subset hl)
  refine sanityCheck_of_keeps hfits hplain ?_ issue options id now locator
  rcases Template.changes_of_mem hmem hlines Window.plain_of hd language with
    hswaps | ⟨hname, hwraps | hguards⟩
  · exact hswaps.keeps language _
  · have hin := hcode.resolve_left hname
    refine hwraps.keeps (hfits.fresh_above hin.starts) fun line hreplaced => ?_
    have hline : (ofDraft t d).replacedCode.toList = line := by
      rw [ofDraft, String.toList_ofList, hreplaced, joined_singleton]
    exact hline ▸ ⟨hin.ends, hin.reached⟩
  · exact hguards.keeps (hfits.fresh_above (hcode.resolve_left hname).starts)

end Candidate

/-! ## Drafts for several lines -/

section

variable {language : Language}

namespace Patch.Placed

variable {content text old new rest : List Char} {f : Fix} {ps : List (List Char)}

/-- Harmless lines pass the check, wherever they stand. -/
theorem sanityCheck_of_harmless (h : Placed content text f ps old new rest)
    (hsame : Balance.Harmless f.replacedCode.toList f.suggestedCode.toList) :
    sanityCheck language content text = .ok () := by
  obtain ⟨hold, hnew⟩ := @balance_eq language _ _ _ _ _ _ _ h
  refine sanityCheck_of_eq fun hbalanced => ?_
  have hunder := Balance.underflow_of_isBalanced hbalanced
  rw [hold, Balance.of_eq_after, ← List.append_assoc] at hunder
  rw [hold, hnew, Balance.of_eq_after, Balance.of_eq_after, ← List.append_assoc, ← List.append_assoc]
  exact hsame language _ _ {} Balance.noted_start hunder

end Patch.Placed

/-- A draft that keeps the balance of its lines passes the check, if these start in code. -/
theorem Draft.Retains.sanityCheck {content text old new rest : List Char} {f : Fix}
    {ps : List (List Char)} {d : Draft} (h : d.Retains language)
    (hplaced : Patch.Placed content text f ps old new rest)
    (hcode : InCode language (above content f.line))
    (hold : f.replacedCode.toList = Window.joined d.replaced)
    (hnew : f.suggestedCode.toList = Window.joined d.suggested) :
    Text.sanityCheck language content text = .ok () := by
  obtain ⟨hcontent, htext⟩ := @Patch.Placed.balance_eq language _ _ _ _ _ _ _ hplaced
  have hfresh : Fresh language ps.flatten :=
    fresh_of_ended hplaced.ended (hplaced.above_eq ▸ hcode)
  rw [hold, Balance.of_eq_after _ (_ ++ _), hfresh, Balance.after_append] at hcontent
  rw [hnew, Balance.of_eq_after _ (_ ++ _), hfresh, Balance.after_append] at htext
  refine sanityCheck_of_eq fun hbalanced => ?_
  have hunder := Balance.underflow_of_isBalanced hbalanced
  rw [hcontent] at hunder
  rw [hcontent, htext]
  exact h _ rest (Balance.noted_start.after _) hplaced.ahead hunder

end

/-! ## Candidates of every template -/

namespace Candidate

variable {language : Language}

/-- No line of the old or of the new ones but the last ends in a backslash. -/
def PlainEnds (c : Candidate) : Prop :=
  ∀ code ∈ [c.replacedCode, c.suggestedCode], ∀ l ∈ (rows code.toList).dropLast,
    l.getLast? ≠ some '\\'

/-- What the template of a candidate takes for code is code. -/
inductive TakesCode (o : SynthesisOptions) (language : Language) (content : String) (issue : Issue)
    (c : Candidate) : Prop
  /-- A change of a part of a line may stand anywhere. -/
  | inPlace (hname : c.template ∈ Template.inPlace)
  /-- A line that gets a guard before it starts in code. -/
  | guard (hname : c.template = "mounted-guard")
      (hstarts : Mask.InCode language (above content.toList c.line))
  /-- A line that is wrapped starts and ends in code, and the issue stands in code. -/
  | line (hname : c.template ∉ Template.ofBlocks) (hcode : c.InCode language content.toList issue.column)
  /-- An effect that gets a cleanup starts in code, and what the cleanup copies is balanced code. -/
  | cleanup (hname : c.template = "effect-cleanup") (hlanguage : issue.file.language? = some language)
      (hstarts : Mask.InCode language (above content.toList c.line))
      (hends : ['\r', '\n'] <:+: content.toList → c.PlainEnds)
      (hcopies : ∀ e, (Synthesis.Effect.at?
        (Window.of issue.file content issue.line o.before o.after)).Gives e → e.CopiesClosed language)
  /-- A closure that holds its owner weakly starts in code. -/
  | capture (hname : c.template = "weak-self-capture") (hlanguage : language = .swift)
      (hstarts : Mask.InCode language (above content.toList c.line))
      (hends : ['\r', '\n'] <:+: content.toList → c.PlainEnds)
  /-- An effect whose late results are ignored may stand anywhere. -/
  | mountGuard (hname : c.template = "effect-mount-guard") (hends : c.PlainEnds)

/-- A candidate passes the check on the text that it was made for, whatever its template, if what
the template takes for code is code. -/
theorem sanityCheck_of_takesCode {o : SynthesisOptions} {issue : Issue} {content : String}
    {c : Candidate} (h : forIssue o issue.toFinding content = .ok (some c))
    (hcode : c.TakesCode o language content issue) (options : Diff.Options) (id : String) (now : Time)
    (locator : Patch.Locator) :
    sanityCheck language content.toList
      (Patch.patched locator content.toList (c.toFix issue options id now) language).1 = .ok () := by
  have hplaced (hends : ['\r', '\n'] <:+: content.toList → c.PlainEnds) :=
    Patch.exists_placed (f := c.toFix issue options id now) locator language (fitsAt_of_forIssue h)
      hends
  obtain ⟨t, ht, d, hd, rfl⟩ := exists_draft h
  have hmem := (List.mem_filter.mp ht).1
  have hold : (ofDraft t d).replacedCode.toList = Window.joined d.replaced := String.toList_ofList
  have hnew : (ofDraft t d).suggestedCode.toList = Window.joined d.suggested := String.toList_ofList
  cases hcode with
  | inPlace hname =>
    have happart : ∀ name ∈ Template.inPlace, name ∉ Template.ofBlocks := by decide
    exact sanityCheck_patched h (happart _ hname) (Or.inl hname) options id now locator
  | guard hname hstarts =>
    have hbuild : t.build = Synthesis.mountedGuard := Template.build_of_name hmem hname rfl
    have hshows := (Template.fits_of_mem hmem Window.plain_of hd).shows
    rw [hbuild] at hd
    have hguards := Synthesis.guards_mountedGuard _ Window.plain_of hd
    have hfits := fitsAt_of_forIssue h
    exact sanityCheck_of_keeps hfits (fun l hl => Window.plain_of l (hshows.subset hl))
      (hguards.keeps (hfits.fresh_above hstarts)) issue options id now locator
  | line hname hcode => exact sanityCheck_patched h hname (Or.inr hcode) options id now locator
  | cleanup hname hlanguage hstarts hends hcopies =>
    have hbuild : t.build = Synthesis.effectCleanup := Template.build_of_name hmem hname rfl
    have hwindow : (Window.of issue.file content issue.line o.before o.after).language = language := by
      rw [Window.of, hlanguage, Option.getD_some]
    rw [hbuild] at hd
    obtain ⟨text, ps, old, new, rest, hpatched, hplaced⟩ := hplaced hends
    rw [hpatched]
    have hretains := Synthesis.retains_effectCleanup Window.plain_of hd (hwindow ▸ hcopies)
    exact (hwindow ▸ hretains).sanityCheck hplaced hstarts hold hnew
  | capture hname hlanguage hstarts hends =>
    have hbuild : t.build = Synthesis.weakSelfCapture := Template.build_of_name hmem hname rfl
    rw [hbuild] at hd
    obtain ⟨text, ps, old, new, rest, hpatched, hplaced⟩ := hplaced hends
    rw [hpatched]
    have hretains := Synthesis.retains_weakSelfCapture Window.plain_of hd
    exact (hlanguage ▸ hretains).sanityCheck hplaced hstarts hold hnew
  | mountGuard hname hends =>
    have hbuild : t.build = Synthesis.effectMountGuard := Template.build_of_name hmem hname rfl
    have hrows := (Template.fits_of_mem hmem Window.plain_of hd).rows_replaced Window.plain_of
    rw [hbuild] at hd
    obtain ⟨text, ps, old, new, rest, hpatched, hplaced⟩ := hplaced fun _ => hends
    rw [hpatched]
    refine hplaced.sanityCheck_of_harmless ?_
    show Balance.Harmless (ofDraft t d).replacedCode.toList (ofDraft t d).suggestedCode.toList
    rw [hold, hnew]
    refine Synthesis.harmless_effectMountGuard Window.plain_of hd fun l hl => ?_
    exact hends _ List.mem_cons_self l (by rwa [hold, hrows])

/-- A fix that was just made passes the check on the text that it was made for, whatever its template,
if what the template takes for code is code. Where the file still holds the text, applying the fix
does not fail for its brackets. -/
theorem passes_check {o : SynthesisOptions} {issue : Issue} {content : String} {c : Candidate}
    (h : forIssue o issue.toFinding content = .ok (some c))
    (hcode : c.TakesCode o language content issue) (options : Diff.Options) (id : String) (now : Time)
    (a : Patch.Applier) :
    sanityCheck language content.toList
        (Patch.patched a.locator content.toList (c.toFix issue options id now) language).1 = .ok () ∧
      ∀ w : Workspace, w.tree.readText (Patch.knownAs w.tree issue.file) = .ok content →
        Patch.languageOf (Patch.knownAs w.tree issue.file) = language → ∀ file reason,
          (Work.exec (a.apply (c.toFix issue options id now)) w).1 ≠
            .error (.validation file reason) := by
  have hcheck := sanityCheck_of_takesCode h hcode options id now a.locator
  refine ⟨hcheck, fun w htext hlanguage => ?_⟩
  subst hlanguage
  exact a.apply_ne_validation (f := c.toFix issue options id now) htext hcheck

/-! ### A listener that is removed -/

/-- The issue of an effect that leaks. -/
def leakIssue (line column : Nat) (evidence : String) : Issue :=
  { id := "", kind := .leak, severity := .high, rule := "react/effect-subscription-leak"
    platform := .web, file := ⟨"/app/a.jsx"⟩, line, column := some column, evidence
    title := "Effect subscribes without cleanup"
    description := "An effect starts a subscription, listener or interval but returns no cleanup "
      ++ "function, so it keeps running after the component unmounts."
    suggestion := some "Return a cleanup function that unsubscribes or removes the listener"
    detectedAt := ⟨0, 0⟩ }

/-- The candidate that returns a cleanup. -/
def leakCandidate (line : Nat) (replacedCode suggestedCode : String) : Candidate :=
  { template := "effect-cleanup"
    title := "Return a cleanup function from the effect"
    description := "The effect's teardown now undoes what the effect started, so nothing keeps "
      ++ "firing after the component unmounts or the dependencies change."
    confidence := 80, line, replacedCode, suggestedCode
    alternatives := [{ title := "Move the subscription into a custom hook"
                       tradeoff := "Reusable and testable, but a larger refactor than a one-line cleanup"
                       confidence := 40, suggestedCode := none }] }

/-- An effect that adds a listener. -/
def resizeText : String :=
  "useEffect(() => \x7b\n  window.addEventListener('resize', onResize);\n\x7d, []);\n"

def resizeIssue : Issue := leakIssue 1 1 "useEffect(() => \x7b"

/-- The listener's arguments are copied. -/
def resizeCandidate : Candidate :=
  leakCandidate 1 "useEffect(() => \x7b\n  window.addEventListener('resize', onResize);\n\x7d, []);"
    ("useEffect(() => \x7b\n  window.addEventListener('resize', onResize);\n"
      ++ "  return () => window.removeEventListener('resize', onResize);\n\x7d, []);")

/-- The effect in its file. -/
def resizeProject : Workspace :=
  { tree := { entries := [(["app"], .directory), (["app", "a.jsx"], .file resizeText.toUTF8)] } }

theorem knownAs_resize : Patch.knownAs resizeProject.tree resizeIssue.file = resizeIssue.file ∧
    resizeProject.tree.readText resizeIssue.file = .ok resizeText := by
  have hgrounded : resizeProject.tree.Grounded :=
    FileTree.grounded_of_entries (by simp [resizeProject, FileTree.get?]) rfl (by simp [resizeProject])
  have hfile : resizeProject.tree.FileAt resizeIssue.file ["app", "a.jsx"] := ⟨rfl, by decide, _, rfl⟩
  exact ⟨Patch.knownAs_of_fileAt hgrounded hfile,
    FileTree.readText_of_read (hfile.read hgrounded rfl)⟩

/-- What the cleanup of the effect copies is balanced code. -/
theorem copiesClosed_resize : ∀ e, (Synthesis.Effect.at?
    (Window.of resizeIssue.file resizeText resizeIssue.line 3 12)).Gives e →
      e.CopiesClosed .javaScript := by
  let body := "\n  window.addEventListener('      ', onResize);\n".toList
  let source := "\n  window.addEventListener('resize', onResize);\n".toList
  have hbody : (Synthesis.Effect.at? (Window.of resizeIssue.file resizeText resizeIssue.line 3 12)).run.map
      (·.map fun e => (e.body, e.bodySource)) = .ok (some (.ok body, .ok source)) := by
    -- The text is spelt out, for the kernel is slow to decode it each time it is looked at.
    have htext : resizeText.toList = _ := String.toList_ofList
    rw [Window.of, htext]
    decide +kernel
  have hfound : ∀ m ∈ Synthesis.listener.findAll body, matchingClose body (m.stop - 1) = some 45 ∧
      between (m.stop - 1 + 1) 45 source = .ok "'resize', onResize".toList := by decide +kernel
  intro e he masked source' hmasked hsource m hm close hclose written hwritten
  rw [show (Synthesis.Effect.at? _).run = .ok (some e) from he] at hbody
  obtain ⟨hbody, hsource'⟩ := Prod.mk.inj (Option.some.inj (Except.ok.inj hbody))
  obtain rfl := Except.ok.inj (hmasked.symm.trans hbody)
  obtain rfl := Except.ok.inj (hsource.symm.trans hsource')
  obtain ⟨hclose', hwritten'⟩ := hfound m hm
  obtain rfl := Option.some.inj (hclose.symm.trans hclose')
  obtain rfl := Except.ok.inj (hwritten.symm.trans hwritten')
  exact ⟨by decide +kernel, by decide +kernel⟩

/-- The listener is removed in a cleanup, and the check passes. -/
theorem passes_check_resize :
    forIssue {} resizeIssue.toFinding resizeText = .ok (some resizeCandidate) ∧
      sanityCheck .javaScript resizeText.toList (Patch.patched {} resizeText.toList
        (resizeCandidate.toFix resizeIssue {} "" ⟨0, 0⟩) .javaScript).1 = .ok () ∧
      ∀ (backups file : Path) (reason : String),
        (Work.exec (({ backups } : Patch.Applier).apply
          (resizeCandidate.toFix resizeIssue {} "" ⟨0, 0⟩)) resizeProject).1 ≠
            .error (.validation file reason) := by
  have hmade : forIssue {} resizeIssue.toFinding resizeText = .ok (some resizeCandidate) := by
    have htext : resizeText.toList = _ := String.toList_ofList
    rw [forIssue, Window.of, htext]
    decide +kernel
  have hcode : resizeCandidate.TakesCode {} .javaScript resizeText resizeIssue :=
    .cleanup rfl rfl inCode_nil (fun h => absurd h (by decide +kernel)) copiesClosed_resize
  obtain ⟨hknown, htext⟩ := knownAs_resize
  refine ⟨hmade, (passes_check hmade hcode {} "" ⟨0, 0⟩ { backups := ⟨""⟩ }).1, fun backups => ?_⟩
  refine (passes_check hmade hcode {} "" ⟨0, 0⟩ { backups }).2 resizeProject (hknown.symm ▸ htext) ?_
  rw [hknown]
  decide

/-! ### A write to state -/

/-- A class with a write to state, and what follows it in its line. -/
def counterText (later : String) : String :=
  "class Counter extends React.Component \x7b\n  reset() \x7b\n    this.state.count = 5;" ++ later
    ++ "\n  \x7d\n\x7d\n"

/-- The issue of the write. -/
def counterWrite (later : String) : Issue :=
  { id := "", kind := .stateInconsistency, severity := .high, rule := "react/direct-state-mutation"
    platform := .web, file := ⟨"/app/a.jsx"⟩, line := 3, column := some 5
    evidence := "this.state.count = 5;" ++ later, title := "State mutated directly"
    description := "Component state is mutated in place instead of through setState, so React "
      ++ "does not re-render and later updates may overwrite the change."
    suggestion := some "Use this.setState with a new value", detectedAt := ⟨0, 0⟩ }

/-- The candidate for the write, which takes the value to go on to the end of the line. -/
def counterCall (later value : String) : Candidate :=
  { template := "set-state-call"
    title := "Update state through setState"
    description := "Direct writes to `this.state` don't trigger a re-render and can be overwritten "
      ++ "by the next setState."
    confidence := 75, line := 3, replacedCode := "    this.state.count = 5;" ++ later
    suggestedCode := "    this.setState(\x7b count: " ++ value ++ " \x7d);", alternatives := [] }

/-- A comment after the write is taken for a part of the value, and the closing brackets are put
inside it. The rules report the write, the text is balanced, and the check fails. -/
theorem not_sanityCheck_patched :
    let text := counterText " // start over"
    let issue := counterWrite " // start over"
    let c := counterCall " // start over" "5; // start over"
    (Balance.of .javaScript text.toList).isBalanced = true ∧
      Scan.content issue.file text .web {} = .ok [issue.toFinding] ∧
      forIssue {} issue.toFinding text = .ok (some c) ∧
      sanityCheck .javaScript text.toList
          (Patch.patched {} text.toList (c.toFix issue {} "" ⟨0, 0⟩) .javaScript).1 =
        .error "delimiters unbalanced after patch: braces +1, parens +1, brackets +0" := by
  decide +kernel

end Candidate

end Mend
