import Mend.Proofs.Synthesis.Blocks
import Mend.Proofs.Synthesis.Lines
import Mend.Synthesis.Template

/-!
# Candidates and the files they are made for

Whatever template drafts a change for an issue, its candidate replaces lines that the file has where
the candidate says, with no fewer lines, and brings in no carriage return before a line feed
(`FitsAt`, `fitsAt_of_forIssue`).
-/

namespace Mend

open Attempt

/-! ## Every template -/

/-- Every template drafts what fits its window. -/
theorem Template.fits_of_mem {t : Template} (ht : t ∈ all) {w : Window} (hw : w.Plain)
    {column : Option Nat} {d : Draft} (h : (t.build column w).Gives d) : d.Fits w := by
  simp only [all, List.mem_cons, List.not_mem_nil, or_false] at ht
  rcases ht with rfl | rfl | rfl | rfl | rfl | rfl | rfl | rfl | rfl | rfl | rfl | rfl | rfl | rfl
  · exact Synthesis.fits_effectCleanup column hw h
  · exact Synthesis.fits_lifecycleScope column hw h
  · exact Synthesis.fits_effectMountGuard column hw h
  · exact Synthesis.fits_mountedGuard column hw h
  · exact Synthesis.fits_mainThreadDispatch column hw h
  · exact Synthesis.fits_setStateCall column hw h
  · exact Synthesis.fits_liveDataPostValue column hw h
  · exact Synthesis.fits_strictEquality column hw h
  · exact Synthesis.fits_conditionalCastSwift column hw h
  · exact Synthesis.fits_conditionalCastKotlin column hw h
  · exact Synthesis.fits_optionalChaining column hw h
  · exact Synthesis.fits_kotlinSafeCall column hw h
  · exact Synthesis.fits_weakSelfCapture column hw h
  · exact Synthesis.fits_weakDelegate column hw h

/-- What a template does can be told by its name, if no other template has it. -/
theorem Template.build_of_name {t : Template} (ht : t ∈ all) {name : String} (hname : t.name = name)
    {f : Option Nat → Window → Attempt Draft}
    (h : (all.filter (·.name == name)).map build = [f]) : t.build = f := by
  have hmem : t.build ∈ (all.filter (·.name == name)).map build :=
    List.mem_map_of_mem (List.mem_filter.mpr ⟨ht, by simp [hname]⟩)
  rw [h] at hmem
  exact List.mem_singleton.mp hmem

/-- The first template that drafts a change is one of those that were tried. -/
theorem Candidate.exists_draft {column : Option Nat} {w : Window} {c : Candidate} :
    ∀ {ts : List Template}, first column w ts = .ok (some c) →
      ∃ t ∈ ts, ∃ d, (t.build column w).Gives d ∧ c = ofDraft t d
  | [], h => by simp [first] at h
  | t :: ts, h => by
    rw [first, bind_eq_ok] at h
    obtain ⟨found, hfound, h⟩ := h
    have hlater (h : first column w ts = .ok (some c)) :
        ∃ t' ∈ t :: ts, ∃ d, (t'.build column w).Gives d ∧ c = ofDraft t' d := by
      obtain ⟨t', ht', d, hd, hc⟩ := exists_draft h
      exact ⟨t', List.mem_cons_of_mem t ht', d, hd, hc⟩
    cases found with
    | none => exact hlater h
    | some d =>
      simp only at h
      split at h
      · exact hlater h
      · obtain rfl := Option.some.inj (Except.ok.inj h)
        exact ⟨t, List.mem_cons_self, d, hfound, rfl⟩

/-! ## The window of a file -/

namespace Window

variable {path : Path} {content : String} {focus before after : Nat}

theorem plain_of : (Window.of path content focus before after).Plain := by
  intro l hl
  obtain ⟨p, hp, rfl⟩ := List.mem_map.mp hl
  exact Text.not_mem_stripTerminator
    (Text.isPiece_of_mem_pieces (List.drop_subset _ _ (List.take_subset _ _ hp)))

/-- A line that is followed by another in a part of a text ends in a line feed. -/
theorem ended_of_mem_dropLast {s p : List Char} {a b : Nat}
    (hp : p ∈ (((Text.pieces s).drop a).take b).dropLast) : Text.Ended p := by
  have hsplit : Text.pieces s =
      ((Text.pieces s).take a ++ (((Text.pieces s).drop a).take b).dropLast) ++
        ((((Text.pieces s).drop a).take b).getLast?.toList ++ ((Text.pieces s).drop a).drop b) := by
    have hlast : (((Text.pieces s).drop a).take b).dropLast ++
        (((Text.pieces s).drop a).take b).getLast?.toList = ((Text.pieces s).drop a).take b := by
      cases h : ((Text.pieces s).drop a).take b with
      | nil => rfl
      | cons q qs => simp [List.getLast?_eq_some_getLast, List.dropLast_append_getLast]
    rw [List.append_assoc, ← List.append_assoc (List.dropLast _), hlast, List.take_append_drop,
      List.take_append_drop]
  refine Text.ended_of_pieces_append hsplit ?_ p (List.mem_append_right _ hp)
  have hne : ((Text.pieces s).drop a).take b ≠ [] :=
    List.ne_nil_of_mem (List.dropLast_subset _ hp)
  simp [List.getLast?_eq_some_getLast hne]

/-- A carriage return before a line feed in the window is one in the file. -/
theorem crlf_of_window
    (h : ['\r', '\n'] <:+: joined (Window.of path content focus before after).lines) :
    ['\r', '\n'] <:+: content.toList := by
  rcases Text.crlf_infix_joined.mp h with ⟨l, hl, hinside⟩ | ⟨l, hl, hlast⟩
  · exact absurd hinside (Text.no_crlf_of_not_mem (plain_of l hl))
  · simp only [Window.of, ← List.map_dropLast] at hl
    obtain ⟨p, hp, rfl⟩ := List.mem_map.mp hl
    have hended := ended_of_mem_dropLast hp
    have hmem : p ∈ Text.pieces content.toList :=
      List.drop_subset _ _ (List.take_subset _ _ (List.dropLast_subset _ hp))
    exact Text.crlf_infix_iff.mpr ⟨p, hmem, Text.crlf_suffix_of_stripTerminator hended hlast⟩

/-- What the window shows from its focus on are lines of the file. -/
theorem take_drop_of_shows {ls : List (List Char)}
    (h : (Window.of path content focus before after).Shows ls) :
    (((Text.pieces content.toList).map Text.stripTerminator).drop (max focus 1 - 1)).take ls.length
      = ls := by
  obtain ⟨-, hls⟩ := h
  have hfirst : max (max focus 1 - before) 1 - 1 + (max focus 1 - max (max focus 1 - before) 1) =
      max focus 1 - 1 := by
    omega
  simp only [Window.of, List.map_take, List.map_drop, List.drop_take, List.drop_drop, hfirst] at hls
  have hlen := congrArg List.length hls
  rw [List.take_take] at hls
  simp only [List.length_take, List.length_drop] at hlen
  rwa [Nat.min_eq_left (by omega)] at hls

end Window

/-! ## Candidates -/

/-- New code fits into a text at a line: the text has the lines of the old code from that line on.
The new code has no fewer lines. It has a carriage return before a line feed only if the text has
one, and ends in a carriage return only if the old code does. -/
structure FitsAt (content : List Char) (line : Nat) (old new : List Char) : Prop where
  line_pos : 1 ≤ line
  lines : (((Text.pieces content).map Text.stripTerminator).drop (line - 1)).take
    (Text.rows old).length = Text.rows old
  length_le : (Text.rows old).length ≤ (Text.rows new).length
  crlf : ['\r', '\n'] <:+: new → ['\r', '\n'] <:+: content
  last : new.getLast? = some '\r' → old.getLast? = some '\r'

namespace Candidate

/-- A candidate for an issue fits into the file in which the issue was looked for. -/
theorem fitsAt_of_forIssue {o : SynthesisOptions} {issue : Finding} {content : String}
    {c : Candidate} (h : forIssue o issue content = .ok (some c)) :
    FitsAt content.toList c.line c.replacedCode.toList c.suggestedCode.toList := by
  obtain ⟨t, ht, d, hd, rfl⟩ := exists_draft h
  have hfits := Template.fits_of_mem (List.mem_filter.mp ht).1 Window.plain_of hd
  have hrows := hfits.rows_replaced Window.plain_of
  have hline := hfits.firstLine_eq
  have hlines := Window.take_drop_of_shows hfits.shows
  constructor
  · show 1 ≤ d.firstLine
    rw [hline]
    exact Nat.le_max_right _ _
  all_goals simp only [ofDraft, String.toList_ofList, hrows]
  · rw [hline]
    exact hlines
  · exact hfits.length_le
  · exact fun hcrlf => Window.crlf_of_window (hfits.crlf hcrlf)
  · exact hfits.last

end Candidate

end Mend
