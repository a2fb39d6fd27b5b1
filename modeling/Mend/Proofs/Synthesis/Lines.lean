import Mend.Proofs.Pattern.Reading
import Mend.Proofs.Synthesis.Draft
import Mend.Synthesis.Capture
import Mend.Synthesis.Lifecycle
import Mend.Synthesis.Operator

/-!
# Templates for one line

Every template that changes the focus line alone drafts what fits the window: the new line is made
of parts of the old one and of plain text.
-/

namespace Mend.Synthesis

open Attempt Draft Pattern

variable {w : Window} (column : Option Nat) {d : Draft}

theorem not_mem_of_focusText (hw : w.Plain) {line : List Char} (h : w.focusText? = some line) :
    '\n' ∉ line :=
  hw line ((Window.shows_focusText h).subset List.mem_cons_self)

/-! ## Operators -/

theorem fits_strictEquality (hw : w.Plain) (h : (strictEquality column w).Gives d) : d.Fits w := by
  simp only [strictEquality, gives_bind, gives_of] at h
  obtain ⟨at', -, h⟩ := h
  refine fits_ofLine h fun hline hnew => ?_
  simp only [gives_bind, gives_of, gives_lift, gives_require] at hnew
  obtain ⟨operator, -, strict, hstrict, rest, -, -, -, hreplace⟩ := hnew
  have hstrict : strict = "===".toList ∨ strict = "!==".toList := by
    split at hstrict
    · exact Or.inl (Option.some.inj hstrict).symm
    · split at hstrict
      · exact Or.inr (Option.some.inj hstrict).symm
      · cases hstrict
  have hplain := not_mem_of_focusText hw hline
  rcases hstrict with rfl | rfl <;>
    exact tidy_replaceAt hplain (by decide) (by decide) (by decide) hreplace

theorem fits_optionalChaining (hw : w.Plain) (h : (optionalChaining column w).Gives d) :
    d.Fits w := by
  rw [optionalChaining, gives_bind] at h
  obtain ⟨at', -, h⟩ := h
  split at h
  all_goals
    refine fits_ofLine_withAlternative h fun hline hnew => ?_
    simp only [gives_bind, gives_of, gives_lift, gives_require] at hnew
    obtain ⟨operator, -, -, -, hreplace⟩ := hnew
    exact tidy_replaceAt (not_mem_of_focusText hw hline) (by decide) (by decide) (by decide)
      hreplace

theorem fits_kotlinSafeCall (hw : w.Plain) (h : (kotlinSafeCall column w).Gives d) :
    d.Fits w := by
  rw [kotlinSafeCall, gives_bind] at h
  obtain ⟨-, -, h⟩ := h
  rw [gives_bind] at h
  obtain ⟨at', -, h⟩ := h
  refine fits_ofLine_withAlternative h fun hline hnew => ?_
  simp only [gives_bind, gives_of, gives_lift, gives_require] at hnew
  obtain ⟨operator, -, -, -, hreplace⟩ := hnew
  exact tidy_replaceAt (not_mem_of_focusText hw hline) (by decide) (by decide) (by decide) hreplace

theorem fits_conditionalCastSwift (hw : w.Plain) (h : (conditionalCastSwift column w).Gives d) :
    d.Fits w := by
  rw [conditionalCastSwift, gives_bind] at h
  obtain ⟨at', -, h⟩ := h
  refine fits_ofLine_withAlternative h fun hline hnew => ?_
  simp only [gives_bind, gives_of, gives_lift, gives_require] at hnew
  obtain ⟨rest, -, -, -, hreplace⟩ := hnew
  exact tidy_replaceAt (not_mem_of_focusText hw hline) (by decide) (by decide) (by decide) hreplace

theorem fits_conditionalCastKotlin (hw : w.Plain) (h : (conditionalCastKotlin column w).Gives d) :
    d.Fits w := by
  rw [conditionalCastKotlin, gives_bind] at h
  obtain ⟨-, -, h⟩ := h
  rw [gives_bind] at h
  obtain ⟨at', -, h⟩ := h
  refine fits_ofLine_withAlternative h fun hline hnew => ?_
  simp only [gives_bind, gives_of, gives_lift, gives_require] at hnew
  obtain ⟨rest, -, -, -, hreplace⟩ := hnew
  exact tidy_replaceAt (not_mem_of_focusText hw hline) (by decide) (by decide) (by decide) hreplace

/-! ## Delegates -/

theorem fits_weakDelegate (hw : w.Plain) (h : (weakDelegate column w).Gives d) : d.Fits w := by
  rw [weakDelegate] at h
  refine fits_ofLine_withAlternative h fun {line new} hline hnew => ?_
  have hplain := not_mem_of_focusText hw hline
  simp only [gives_bind, gives_of, gives_lift, gives_require] at hnew
  obtain ⟨-, -, m, -, span, -, declared, hdeclared, hoptional⟩ := hnew
  have htidy : Tidy line declared :=
    tidy_replaceAt hplain (by decide) (by decide) (by decide) hdeclared
  unfold optionalType at hoptional
  split at hoptional
  · obtain rfl := Except.ok.inj hoptional
    exact htidy
  · have htidy' : Tidy declared new :=
      tidy_replaceAt htidy.1 (by decide) (by decide) (by decide) hoptional
    exact ⟨htidy'.1, fun hlast => htidy.2 (htidy'.2 hlast)⟩

/-! ## Where and when an update runs -/

/-- A captured text stands in the text that was searched. -/
theorem infix_captured (m : Match) (i : Nat) (s : List Char) : captured m i s <:+: s := by
  unfold captured Match.groupText?
  cases m.group? i with
  | none => exact List.nil_infix
  | some span => exact Text.infix_cut span.start span.stop s

theorem not_mem_captured {s : List Char} (hs : '\n' ∉ s) (m : Match) (i : Nat) :
    '\n' ∉ captured m i s :=
  fun h => hs ((infix_captured m i s).subset h)

theorem fits_setStateCall (hw : w.Plain) (h : (setStateCall column w).Gives d) : d.Fits w := by
  refine fits_ofLine h fun {line new} hline hnew => ?_
  have hplain := not_mem_of_focusText hw hline
  simp only [gives_bind, gives_of, gives_pure] at hnew
  obtain ⟨m, -, rfl⟩ := hnew
  refine tidy_concat ?_ (by decide) (by decide) (by decide)
  simp only [List.mem_append, not_or]
  exact ⟨⟨⟨⟨not_mem_captured hplain m 1, by decide⟩, not_mem_captured hplain m 2⟩, by decide⟩,
    not_mem_captured hplain m 3⟩

theorem fits_lifecycleScope (hw : w.Plain) (h : (lifecycleScope column w).Gives d) :
    d.Fits w := by
  simp only [lifecycleScope, gives_bind, gives_of, gives_lift, gives_require, gives_pure] at h
  obtain ⟨at', -, line, hline, rest, hrest, -, -, front, hfront, draft, hdraft, rfl⟩ := h
  refine (fits_ofLine hdraft fun {line' new} hline' hnew => ?_).withAlternative _ _ _ _
  obtain rfl : line = line' := Option.some.inj (hline.symm.trans hline')
  have hplain := not_mem_of_focusText hw hline
  rw [gives_pure] at hnew
  subst hnew
  have hback : rest.drop "GlobalScope.".length <:+ line :=
    (List.drop_suffix _ _).trans (Text.suffix_of_from? hrest)
  refine tidy_append (List.cons_ne_nil _ _) (by decide) (by decide) hback hplain ?_
  simp only [List.mem_append, not_or]
  exact ⟨fun hmem => hplain ((Text.prefix_of_before hfront).subset hmem), by decide⟩

/-- A wrapped statement has no line feed and ends in a closing bracket or a semicolon. -/
theorem onMainThread?_eq {statement wrapped : List Char} (hs : '\n' ∉ statement)
    (h : onMainThread? w statement = some wrapped) :
    ∃ front closer, wrapped = front ++ closer ∧ '\n' ∉ front ∧
      (closer = " \x7d".toList ∨ closer = ");".toList) := by
  unfold onMainThread? at h
  split at h
  · exact ⟨_, _, (Option.some.inj h).symm, by simp [hs], Or.inl rfl⟩
  · refine ⟨_, _, (Option.some.inj h).symm, ?_, Or.inl rfl⟩
    split <;> simp [hs]
  · refine ⟨_, _, (Option.some.inj h).symm, ?_, Or.inr rfl⟩
    rw [List.mem_append, not_or]
    refine ⟨by decide, fun hmem => hs ?_⟩
    exact (Text.prefix_dropEndWhile _ _).subset ((Text.prefix_trimEnd _).subset hmem)
  · cases h

theorem fits_mainThreadDispatch (hw : w.Plain) (h : (mainThreadDispatch column w).Gives d) :
    d.Fits w := by
  simp only [mainThreadDispatch, gives_bind, gives_of, gives_require, gives_pure] at h
  obtain ⟨line, hline, -, -, wrapped, hwrapped, rfl⟩ := h
  have hplain := not_mem_of_focusText hw hline
  have htidy : Tidy line (Text.indentation line ++ wrapped) := by
    obtain ⟨front, closer, rfl, hfront, hcloser⟩ :=
      onMainThread?_eq (fun hmem => hplain ((Text.infix_trim _).subset hmem)) hwrapped
    have hindent : '\n' ∉ Text.indentation line ++ front := by
      rw [List.mem_append, not_or]
      exact ⟨fun hmem => hplain ((List.takeWhile_prefix _).subset hmem), hfront⟩
    rw [← List.append_assoc]
    rcases hcloser with rfl | rfl <;>
      exact tidy_concat hindent (by decide) (by decide) (by decide)
  have hfits := fits_line hline htidy "Hop to the main thread for the UI update"
    "UI toolkits are single-threaded; the update is posted to the main thread."
  split
  · exact hfits.withAlternative _ _ _ _
  · exact hfits

/-- The third group of an assignment is a semicolon or nothing. -/
theorem captured_semicolon {rest : List Char} {m : Match} (h : valueWrite.find? rest = some m) :
    captured m 3 rest = [] ∨ captured m 3 rest = [';'] := by
  obtain ⟨i, j, ms, hreads, rfl⟩ := reads_of_find? h
  obtain ⟨_, _, _, hfront, hend, rfl⟩ := reads_append hreads
  obtain ⟨b, _, _, hplaced, hgap, rfl⟩ := reads_append hfront
  obtain ⟨a, before, _, -, hgroup, rfl⟩ := reads_append hplaced
  obtain rfl := marks_of_textEnd hend
  obtain rfl := marks_of_chars hgap
  cases hgroup with
  | group _ hopt =>
    have hsemicolon : lit ";" = .set (· == ';') := by
      simp [lit, litChars]
    rw [hsemicolon] at hopt
    simp only [captured, Match.groupText?, Match.group?]
    rcases reads_opt hopt with hset | ⟨rfl, rfl⟩
    · cases hset with
      | @set _ _ c hc hp =>
        have hget : rest[a]? = some ';' := by
          rw [beq_iff_eq] at hp
          simpa [Subject.of, hp] using hc
        obtain ⟨hlt, hget⟩ := List.getElem?_eq_some_iff.mp hget
        have hcut := Subject.cut_offset (Nat.le_succ a) hlt
        rw [List.take_succ_eq_append_getElem hlt, hget, List.drop_left' (by simp; omega)] at hcut
        right
        simpa [Mark.mapPlace, Mark.opened?, Mark.closed?] using hcut
    · left
      simp [Mark.mapPlace, Mark.opened?, Mark.closed?, Text.cut_self]

theorem fits_liveDataPostValue (hw : w.Plain) (h : (liveDataPostValue column w).Gives d) :
    d.Fits w := by
  rw [liveDataPostValue, gives_bind] at h
  obtain ⟨at', -, h⟩ := h
  refine fits_ofLine h fun {line new} hline hnew => ?_
  have hplain := not_mem_of_focusText hw hline
  simp only [gives_bind, gives_of, gives_lift] at hnew
  obtain ⟨rest, hrest, front, hfront, hnew⟩ := hnew
  have hrestPlain : '\n' ∉ rest := fun hmem => hplain ((Text.suffix_of_from? hrest).subset hmem)
  have hfrontPlain : '\n' ∉ front := fun hmem => hplain ((Text.prefix_of_before hfront).subset hmem)
  split at hnew
  · next m hm =>
    rw [gives_pure] at hnew
    subst hnew
    have hcaptured := not_mem_captured hrestPlain m
    rcases captured_semicolon hm with hnone | hsome
    · rw [hnone, List.append_nil]
      refine tidy_concat ?_ (by decide) (by decide) (by decide)
      simp only [List.mem_append, not_or]
      exact ⟨⟨⟨hfrontPlain, hcaptured 1⟩, by decide⟩, hcaptured 2⟩
    · rw [hsome]
      refine tidy_concat ?_ (by decide) (by decide) (by decide)
      simp only [List.mem_append, not_or]
      exact ⟨⟨⟨⟨hfrontPlain, hcaptured 1⟩, by decide⟩, hcaptured 2⟩, by decide⟩
  · simp only [gives_bind, gives_of, gives_pure] at hnew
    obtain ⟨m, -, rfl⟩ := hnew
    refine tidy_append (by decide) (by decide) (by decide)
      ((Text.suffix_after _ _).trans (Text.suffix_of_from? hrest)) hplain ?_
    rw [List.mem_append, not_or]
    exact ⟨hfrontPlain, not_mem_captured hrestPlain m 1⟩

/-- The guard before a call makes a line of its own. -/
theorem fits_mountedGuard (hw : w.Plain) (h : (mountedGuard column w).Gives d) : d.Fits w := by
  simp only [mountedGuard, gives_bind, gives_of, gives_require, gives_pure] at h
  obtain ⟨line, hline, -, -, rfl⟩ := h
  have hplain := not_mem_of_focusText hw hline
  have hguard : '\n' ∉ Text.indentation line ++ "if (!mounted) return;".toList := by
    rw [List.mem_append, not_or]
    exact ⟨fun hmem => hplain ((List.takeWhile_prefix _).subset hmem), by decide⟩
  refine Fits.withAlternative (fits_lines rfl (List.nil_append _).symm
    (List.singleton_append (x := _)).symm (Window.shows_focusText hline) (Nat.zero_le _) ?_ ?_ id)
    _ _ _ _
  · intro l hl hcrlf
    simp only [List.singleton_append, List.mem_cons, List.not_mem_nil, or_false] at hl
    rcases hl with rfl | rfl
    · exact absurd hcrlf (Text.no_crlf_of_not_mem hguard)
    · exact absurd hcrlf (Text.no_crlf_of_not_mem hplain)
  · intro l hl hlast
    obtain rfl := List.mem_singleton.mp hl
    rw [List.getLast?_append_of_ne_nil _ (by decide)] at hlast
    exact absurd hlast (by decide)

end Mend.Synthesis
