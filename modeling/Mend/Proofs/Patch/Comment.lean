import Mend.Proofs.Checked.Mask
import Mend.Proofs.Patch.Drifted
import Mend.Proofs.Text.Balance

/-!
# The comment that stays inert

Where a fix cannot be carried out, a comment at the end of the text says what to do by hand. Each of
its lines is one line comment, whatever stands in the snippets (`mask_commentLines`). If the lexer
is in code once the last line of the text is ended, the mask shows the text as before and nothing of
the comment but line breaks, so no bracket is counted in it and the sanity check always passes
(`manualComment_inert`).
-/

namespace Mend.Patch

open Text (encode)
open Text.Mask (InCode Fresh hide mask)
open Text.Balance (isBracket)

variable {language : Language} {content : List Char} {fix : Fix}

/-! ## Lines of comments -/

/-- The mask shows a space for the byte, or the byte is part of a line break and stays. A line feed
always stays. -/
def Faded (b shown : Char) : Prop :=
  b ≠ '\n' ∧ shown = ' ' ∨ shown = b ∧ (b = '\n' ∨ b = '\r')

theorem faded_blankByte (b : Char) : Faded b (Checked.blankByte b) := by
  rw [Checked.blankByte]
  split
  · next h => exact .inr ⟨rfl, .inl h⟩
  · next h => exact .inl ⟨h, rfl⟩

theorem faded_hide (s : List Char) : List.Forall₂ Faded (encode s) (encode (hide s)) := by
  rw [Checked.encode_hide, List.forall₂_map_right_iff, List.forall₂_same]
  exact fun b _ => faded_blankByte b

/-- Blanks and line breaks are all that is shown. -/
theorem eq_of_mem_faded {s shown : List Char} (h : List.Forall₂ Faded s shown) :
    ∀ c ∈ shown, c = ' ' ∨ c = '\n' ∨ c = '\r' := by
  induction h with
  | nil => exact nofun
  | cons hb _ ih =>
    refine List.forall_mem_cons.mpr ⟨?_, ih⟩
    rcases hb with ⟨-, rfl⟩ | ⟨rfl, hbreak⟩
    · exact .inl rfl
    · exact .inr hbreak

theorem encode_faded {s shown : List Char} (h : List.Forall₂ Faded s shown) :
    encode shown = shown := by
  refine Text.encode_of_ascii fun c hc => ?_
  rcases eq_of_mem_faded h c hc with rfl | rfl | rfl <;> decide

theorem after_faded (b : Text.Balance) {s shown : List Char} (h : List.Forall₂ Faded s shown) :
    b.after shown = b := by
  rw [← Text.Balance.after_filter, List.filter_eq_nil_iff.mpr fun c hc => ?_,
    Text.Balance.after_nil]
  rcases eq_of_mem_faded h c hc with rfl | rfl | rfl <;> decide

theorem hide_append (s t : List Char) : hide (s ++ t) = hide s ++ hide t :=
  List.flatMap_append

/-- A line comment is hidden up to the line feed. -/
theorem mask_line_comment {body : List Char} (h : '\n' ∉ body) (rest : List Char) :
    mask language ('/' :: '/' :: body ++ '\n' :: rest) =
      hide ('/' :: '/' :: body ++ ['\n']) ++ mask language rest := by
  have hall : ∀ c ∈ '/' :: body, decide (c ≠ '\n') = true := by
    intro c hc
    rcases List.mem_cons.mp hc with rfl | hc
    · decide
    · exact decide_eq_true fun heq => h (heq ▸ hc)
  have htake : ('/' :: body ++ '\n' :: rest).takeWhile (· ≠ '\n') = '/' :: body := by
    rw [List.takeWhile_append_of_pos hall]
    simp
  have hdrop : ('/' :: body ++ '\n' :: rest).dropWhile (· ≠ '\n') = '\n' :: rest := by
    rw [List.dropWhile_append_of_pos hall]
    simp
  have hstep : Text.Mask.step language '/' ('/' :: body ++ '\n' :: rest) =
      (.comment ('/' :: '/' :: body), '\n' :: rest) := by
    rw [Text.Mask.step, if_pos (by simp), htake, hdrop]
  rw [List.cons_append, Text.Mask.mask_cons, hstep, Text.Mask.mask_newline, hide_append]
  simp [Text.Mask.Step.masked, Text.Mask.blank]

theorem exists_commentLine (language : Language) {text : List Char} (h : '\n' ∉ text) :
    ∃ body, '\n' ∉ body ∧ commentLine language text = '/' :: '/' :: body := by
  have hmark : language.commentPrefix.toList = ['/', '/'] := by
    cases language <;> decide
  refine ⟨if text.isEmpty then [] else ' ' :: text, ?_, by rw [commentLine, hmark]; rfl⟩
  split
  · exact List.not_mem_nil
  · simpa using h

theorem mask_commentLine {text eol : List Char} (h : '\n' ∉ text) (heol : IsEnding eol)
    (rest : List Char) : mask language (commentLine language text ++ eol ++ rest) =
      hide (commentLine language text ++ eol) ++ mask language rest := by
  obtain ⟨body, hbody, hline⟩ := exists_commentLine language h
  rw [hline]
  rcases heol with rfl | rfl
  · rw [List.append_assoc]
    exact mask_line_comment hbody rest
  · have hreturn : '\n' ∉ body ++ ['\r'] := by
      rw [List.mem_append, not_or]
      exact ⟨hbody, by decide⟩
    have hmask := @mask_line_comment language _ hreturn rest
    simpa using hmask

/-- Nothing of the lines of a comment is shown. -/
theorem mask_commentLines {eol : List Char} (heol : IsEnding eol) : ∀ {texts : List (List Char)},
    (∀ text ∈ texts, '\n' ∉ text) →
      mask language (texts.flatMap fun text => commentLine language text ++ eol) =
        hide (texts.flatMap fun text => commentLine language text ++ eol)
  | [], _ => Text.Mask.mask_nil
  | text :: texts, h => by
    obtain ⟨htext, htexts⟩ := List.forall_mem_cons.mp h
    rw [List.flatMap_cons, mask_commentLine htext heol, mask_commentLines heol htexts]
    exact (hide_append _ _).symm

/-- No line of the comment is broken, whatever the snippets are. -/
theorem not_mem_manualLines (hid : '\n' ∉ fix.id.toList) (htemplate : '\n' ∉ fix.template.toList)
    (htitle : '\n' ∉ fix.title.toList) : ∀ line ∈ manualLines fix, '\n' ∉ line := by
  have hlisted (code : String) : ∀ line ∈ (Text.rows code.toList).map ("    ".toList ++ ·),
      '\n' ∉ line := by
    rintro _ hline
    obtain ⟨row, hrow, rfl⟩ := List.mem_map.mp hline
    rw [List.mem_append, not_or]
    exact ⟨by decide, Text.not_mem_of_mem_rows hrow⟩
  have hnumber : '\n' ∉ Nat.toDigits 10 fix.line := fun hmem =>
    absurd (Nat.isDigit_of_mem_toDigits (by decide) (by decide) hmem) (by decide)
  intro line hline
  simp only [manualLines, List.mem_append, List.mem_cons, List.not_mem_nil, or_false] at hline
  rcases hline with (((rfl | rfl | rfl) | hline) | rfl) | hline
  · have hwords : '\n' ∉ (toString "appmedic: manual fix required near line ").toList ∧
        '\n' ∉ (toString " (").toList := by decide
    simpa [hid, htemplate, hnumber, Nat.repr] using hwords
  · exact htitle
  · decide
  · exact hlisted _ _ hline
  · decide
  · exact hlisted _ _ hline

/-! ## The end of the text -/

/-- The text with its last line ended. -/
def completed (content : List Char) : List Char :=
  if content.isEmpty || content.getLast? == some '\n' then content
  else content ++ (Text.lineEnding content).toList

theorem manualComment_eq (content : List Char) (fix : Fix) (language : Language) :
    manualComment content fix language = completed content ++
      (manualLines fix).flatMap fun line =>
        commentLine language line ++ (Text.lineEnding content).toList := rfl

/-- A line break at the end changes nothing of what is shown before it, and shows no more than
itself. -/
theorem mask_append_ending (language : Language) (content : List Char) {eol : List Char}
    (heol : IsEnding eol) : ∃ shown,
      mask language (content ++ eol) = mask language content ++ shown ∧
        List.Forall₂ Faded eol shown := by
  obtain ⟨mode, m, hm⟩ := Text.Mask.exists_mode language .code content
  have hfront : mask language content = m := by simpa using hm [] Text.Mask.ahead_nil
  have hfeed : Faded '\n' '\n' := .inr ⟨rfl, .inl rfl⟩
  have hnewline (mode : Text.Mask.Mode) : mode.shown language ['\n'] = ['\n'] := by
    rw [Text.Mask.shown_newline, Text.Mask.shown_nil]
  have hread (h : Text.Mask.Ahead eol) :
      mask language (content ++ eol) = mask language content ++ mode.shown language eol := by
    rw [hfront, ← hm eol h, Text.Mask.shown_code]
  rcases heol with rfl | rfl
  · refine ⟨_, hread (Text.Mask.ahead_newline []), ?_⟩
    rw [hnewline]
    exact .cons hfeed .nil
  · refine ⟨_, hread (Text.Mask.ahead_cons (by decide) (by decide)), ?_⟩
    have hreturn := @Text.Mask.shown_quiet language mode ['\n'] ['\r'] (by decide) (by decide)
    rw [List.singleton_append, hnewline] at hreturn
    rw [hreturn]
    cases mode with
    | code => exact .cons (.inr ⟨rfl, .inr rfl⟩) (.cons hfeed .nil)
    | _ => exact .cons (.inl ⟨by decide, rfl⟩) (.cons hfeed .nil)

/-- After a text whose last line is ended, what follows is read afresh if the lexer is in code. -/
theorem fresh_completed (h : InCode language (completed content)) :
    Fresh language (completed content) := by
  have hline : completed content = [] ∨ ∃ front, completed content = front ++ ['\n'] := by
    rw [completed]
    split
    · next hend =>
      rw [Bool.or_eq_true, List.isEmpty_iff, beq_iff_eq] at hend
      exact hend.imp id List.getLast?_eq_some_iff.mp
    · rcases isEnding_lineEnding content with heol | heol
      · exact .inr ⟨content, by rw [heol]⟩
      · exact .inr ⟨content ++ ['\r'], by rw [heol, List.append_assoc]; rfl⟩
  rcases hline with hnil | ⟨front, hfront⟩
  · rw [hnil]
    exact Text.Mask.fresh_of_quiet rfl
  · rw [hfront] at h ⊢
    exact h.fresh_line

/-! ## The comment -/

/-- A fix that ends as a comment leaves the text with the comment. -/
theorem patched_manualComment {locator : Locator}
    (h : (patched locator content fix language).2 = .manualComment) :
    (patched locator content fix language).1 = manualComment content fix language := by
  cases hstart : (located locator content fix).start? with
  | none => rw [patched_of_unresolved language hstart]
  | some start =>
    rw [patched_of_start language hstart] at h ⊢
    split at h
    · next merged hmerged =>
      cases hlocated : located locator content fix <;> rw [hlocated] at h hstart <;> cases h
      cases hstart
    · rfl

theorem exists_completed (language : Language) (content : List Char) : ∃ ending shown,
    completed content = content ++ ending ∧
      mask language (completed content) = mask language content ++ shown ∧
      encode ending = ending ∧ List.Forall₂ Faded ending shown := by
  rw [completed]
  split
  · exact ⟨[], [], by simp, by simp, Text.encode_nil, .nil⟩
  · obtain ⟨shown, hmask, hfaded⟩ :=
      mask_append_ending language content (isEnding_lineEnding content)
    refine ⟨_, shown, rfl, hmask, ?_, hfaded⟩
    rcases isEnding_lineEnding content with heol | heol <;> rw [heol] <;>
      exact Text.encode_of_all_ascii (by decide)

/-- Where the lexer is in code at the end of the text, a comment there is no code: the text stands
before it as it was and is shown as it was, and nothing of the comment is shown but line breaks. So
every bracket counts as before, and the check passes whenever a fix ends as a comment. -/
theorem manualComment_inert (hid : '\n' ∉ fix.id.toList) (htemplate : '\n' ∉ fix.template.toList)
    (htitle : '\n' ∉ fix.title.toList) (hcode : InCode language (completed content)) :
    (∃ added shown, manualComment content fix language = content ++ added ∧
      mask language (manualComment content fix language) = mask language content ++ shown ∧
      List.Forall₂ Faded (encode added) (encode shown)) ∧
    Text.Balance.of language (manualComment content fix language) =
      Text.Balance.of language content ∧
    ∀ locator : Locator, (patched locator content fix language).2 = .manualComment →
      Text.sanityCheck language content (patched locator content fix language).1 = .ok () := by
  obtain ⟨ending, shown, hcompleted, hshown, hencode, hfaded⟩ := exists_completed language content
  let comment := (manualLines fix).flatMap fun line =>
    commentLine language line ++ (Text.lineEnding content).toList
  have hcomment : mask language comment = hide comment :=
    mask_commentLines (isEnding_lineEnding content) (not_mem_manualLines hid htemplate htitle)
  have hmask : mask language (manualComment content fix language) =
      mask language content ++ (shown ++ hide comment) := by
    rw [manualComment_eq, fresh_completed hcode, hshown, List.append_assoc, ← hcomment]
  have hbalance : Text.Balance.of language (manualComment content fix language) =
      Text.Balance.of language content := by
    rw [Text.Balance.of_eq_after, hmask, Text.Balance.after_append, Text.Balance.after_append,
      Text.Balance.after_hide, after_faded _ hfaded, Text.Balance.of_eq_after]
  refine ⟨⟨ending ++ comment, shown ++ hide comment, ?_, hmask, ?_⟩, hbalance,
    fun locator hplaced => ?_⟩
  · rw [manualComment_eq, hcompleted, List.append_assoc]
  · rw [Text.encode_append, Text.encode_append, hencode, encode_faded hfaded]
    exact List.rel_append hfaded (faded_hide comment)
  · rw [patched_manualComment hplaced]
    exact Text.sanityCheck_of_eq fun _ => hbalance

/-- A text whose lines end in two characters, the last one not at all. -/
def lastCall : List Char := "start([1]);\r\nstop('(')".toList

/-- A fix for code that is nowhere in the text. Its snippets would close comments, open strings and
unbalance every bracket. -/
def lostFix : Fix :=
  { id := "fix-1", issueId := "", platform := .web, template := "optional-chain"
    title := "Guard the access", description := "", confidence := 80, file := ⟨"/app/a.js"⟩
    line := 7, replacedCode := "*/ \x7b\x7b(\"\n */ [\\", suggestedCode := "/* - )) '\r\n`$\x7b"
    diff := "", createdAt := ⟨0, 0⟩ }

theorem manualComment_inert_lostFix :
    '\n' ∉ lostFix.id.toList ∧ '\n' ∉ lostFix.template.toList ∧ '\n' ∉ lostFix.title.toList ∧
      InCode .javaScript (completed lastCall) ∧
      (patched {} lastCall lostFix .javaScript).2 = .manualComment ∧
      Text.sanityCheck .javaScript lastCall (patched {} lastCall lostFix .javaScript).1 = .ok () := by
  have hid : '\n' ∉ lostFix.id.toList := by decide +kernel
  have htemplate : '\n' ∉ lostFix.template.toList := by decide +kernel
  have htitle : '\n' ∉ lostFix.title.toList := by decide +kernel
  have hcode : InCode .javaScript (completed lastCall) := by decide +kernel
  have hplaced : (patched {} lastCall lostFix .javaScript).2 = .manualComment := by
    decide +kernel
  exact ⟨hid, htemplate, htitle, hcode, hplaced,
    (manualComment_inert hid htemplate htitle hcode).2.2 {} hplaced⟩

end Mend.Patch
