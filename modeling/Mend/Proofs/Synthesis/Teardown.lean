import Mend.Proofs.Rule.Basic
import Mend.Proofs.Rule.Excerpt
import Mend.Proofs.Synthesis.Cleanup

/-!
# The effect that gets a cleanup

The template for effects that leak looks for the first effect in the lines that it replaces, and
puts the cleanup before the brace that closes it (`Synthesis.exists_teardown`). The effect keeps its
place and its body, but for the blanks at the end of it, and goes on in a `return`.
-/

namespace Mend.Synthesis

open Attempt Text Mask React

/-- The first effect in the old lines starts after `front`, and is closed after `body` and some
blanks. In the new lines it starts there, too, and after the body and some blanks something is
returned. -/
structure Teardown (language : Language) (old new front u body : List Char) : Prop where
  plain : '\n' ∉ front
  first : ∀ x v later, Opens (mask language old) x v later → front.length ≤ x.length
  closed : nested .brace 1 body = some 1
  before : ∃ blanks rest, blanks.all isBlank = true ∧
    Opens (mask language old) front u (body ++ blanks ++ '\x7d' :: rest)
  after : ∃ blanks later, blanks.all isBlank = true ∧ wordAfter false (body ++ blanks) = false ∧
    Opens (mask language new) front u (body ++ blanks ++ ("return (".toList ++ later))

variable {w : Window} {e : Effect} {d : Draft}

/-- The template looks at the first effect, which starts in the first line. -/
theorem Effect.exists_opens (h : (Effect.at? w).Gives e) : ∃ front u mid rest,
    Opens e.masked front u (mid ++ '\x7d' :: rest) ∧ '\n' ∉ front ∧ nested .brace 1 mid = some 1 ∧
      width (front ++ (u ++ '\x7b' :: mid)) = e.close ∧
      ∀ x v later, Opens e.masked x v later → front.length ≤ x.length := by
  simp only [Effect.at?, gives_bind, gives_of, gives_lift, gives_require, gives_pure] at h
  obtain ⟨tail, -, m, hm, before, hbefore, -, hplain, close, hclose, rfl⟩ := h
  obtain ⟨front, u, back, hopens, hstart, hstop, hfirst⟩ := exists_of_find? hm
  obtain rfl := before_eq hopens.text_eq hstart.symm hbefore
  obtain ⟨kind, opened, mid, rest, hmasked, hopened, hwidth, hmid⟩ := matchingClose_iff.mp hclose
  rw [hstop, Nat.add_sub_cancel] at hopened
  have hsplit : (before ++ u) ++ '\x7b' :: back = opened ++ kind.opener :: (mid ++ kind.closer :: rest) := by
    rw [← hmasked, List.append_assoc]
    exact hopens.text_eq.symm
  obtain ⟨rfl, hback⟩ := append_inj_of_width hsplit hopened.symm
  obtain ⟨hkind, rfl⟩ := List.cons.inj hback
  obtain rfl : kind = .brace := by cases kind <;> first | rfl | cases hkind
  refine ⟨before, u, mid, rest, hopens, by simpa using hplain, hmid, ?_, hfirst⟩
  rw [← List.append_assoc, width_append, ← hwidth, hstop, Nat.add_sub_cancel, Nat.add_assoc]
  rfl

/-- The mask shows the replaced lines as it shows them in the window, up to the brace that closes
the effect and with it. -/
theorem Effect.exists_masked (h : (Effect.at? w).Gives e) {ls : List (List Char)} (hls : w.Shows ls)
    (hne : ls ≠ []) {front rest : List Char} (hmasked : e.masked = front ++ '\x7d' :: rest)
    (hwidth : width front < width (Window.joined ls)) :
    (∃ rest', mask w.language (Window.joined ls) = front ++ '\x7d' :: rest') ∧
      ∃ m, e.masked = mask w.language (Window.joined ls) ++ m := by
  have hreads := reads_of_at h
  obtain ⟨t, htail, hafter⟩ := hls.exists_tail hne hreads.tail_eq
  have hahead : Ahead t := by
    cases t with
    | nil => exact ahead_nil
    | cons c t =>
      rw [hafter c rfl]
      exact ahead_newline t
  obtain ⟨m, hm⟩ := exists_mask_append w.language (Window.joined ls) hahead
  rw [← htail, ← hreads.masked_eq] at hm
  refine ⟨?_, m, hm⟩
  obtain ⟨z, hz, -⟩ := exists_append_of_width
    (show (front ++ ['\x7d']) ++ rest = mask w.language (Window.joined ls) ++ m by
      rw [← hm, hmasked, List.append_assoc, List.singleton_append])
    (by rw [width_append, ← (aligned_mask w.language _).1]; exact hwidth)
  exact ⟨z, by rw [hz, List.append_assoc, List.singleton_append]⟩

/-- A cleanup that is drafted comes at the end of the first effect of the lines. -/
theorem exists_teardown (column : Option Nat) (hw : w.Plain) (h : (effectCleanup column w).Gives d) :
    ∃ front u body, Teardown w.language (Window.joined d.replaced) (Window.joined d.suggested)
      front u body := by
  have hfits := fits_effectCleanup column hw h
  simp only [effectCleanup, gives_bind, gives_of, gives_lift, gives_pure] at h
  obtain ⟨e, he, calls, -, statement, hstatement, ⟨replaced, suggested⟩, hlines, rfl⟩ := h
  obtain ⟨kept, blanks, gap, gap', rest, hold, hnew, hwidth, hbefore, hcode, hblank, -, -, -, hrest,
    hends⟩ := Effect.exists_texts hw he hlines
  obtain ⟨front, u, mid, later, hopens, hplain, hmid, hclose, hfirst⟩ := Effect.exists_opens he
  rw [List.all_append, Bool.and_eq_true] at hblank
  have hmasked : e.masked = (front ++ (u ++ '\x7b' :: mid)) ++ '\x7d' :: later := by
    rw [hopens.text_eq]
    simp
  -- What is kept shows the effect up to the end of its body.
  rw [hmasked, ← hclose, cut_width, hcode.mask_append_quiet (all_isQuiet_of_lineBlank hblank.1)] at hbefore
  have hblanks := all_isBlank_of_lineBlank hblank.1
  obtain ⟨body, hkept, rfl⟩ := exists_of_append_cons
    (show mask w.language kept ++ blanks = (front ++ u) ++ '\x7b' :: mid by simp [← hbefore])
    (not_mem_of_blanks hblanks (by decide))
  have hbody : nested .brace 1 body = some 1 := by
    rwa [nested_append_blanks hblanks] at hmid
  obtain ⟨⟨rest', hreplaced⟩, m, hm⟩ := Effect.exists_masked he hfits.shows hfits.replaced_ne_nil
    hmasked (by
      have hpos := Nat.pos_of_ne_zero fun h => hrest (eq_nil_of_width h)
      rw [hclose, ← hwidth]
      show _ < width (Window.joined replaced)
      rw [hold, width_append _ rest]
      omega)
  refine ⟨front, u, body, hplain, fun x v later hx => hfirst x v (later ++ m) ?_, hbody,
    ⟨blanks, rest', hblanks, ?_, hopens.opener, hopens.before⟩, gap, ?_⟩
  · rw [hm]
    exact hx.append m
  · rw [hreplaced]
    simp
  · have hquiet := all_isQuiet_of_lineBlank hblank.2
    obtain ⟨later', hmask⟩ := mask_statement hcode hquiet (starts_of_cleanupStatement? hstatement)
      (gap' ++ rest)
    rw [← List.append_assoc, ← hnew] at hmask
    have hgap : mask w.language (kept ++ gap) = (front ++ (u ++ ['\x7b'])) ++ (body ++ gap) := by
      rw [hcode.mask_append_quiet hquiet, hkept]
      simp
    have hbrace : wordAfter false (front ++ (u ++ ['\x7b'])) = false := by
      rw [wordAfter_append, wordAfter_append]
      rfl
    have hword := @wordAfter_mask w.language _ hends
    rw [hgap, wordAfter_append (body ++ gap), hbrace] at hword
    refine ⟨later', all_isBlank_of_lineBlank hblank.2, hword, ?_, hopens.opener, hopens.before⟩
    show mask w.language (Window.joined suggested) = _
    rw [hmask, hgap]
    simp

/-! ## In the file -/

namespace Teardown

variable {language : Language} {old new front u body start : List Char} {ctx : Context} {b : Block}

/-- If no other effect of its line starts before it, a block of the file in the first of the old
lines is the effect that the template looks at. -/
theorem start_eq (h : Teardown language old new front u body) (hctx : ctx.Indexed)
    (hold : Excerpt ctx.masked start (mask language old))
    (hstart : ctx.index.columnOf (width start) = 1) (hb : b ∈ effects ctx)
    (hline : ctx.index.lineOf b.start = ctx.index.lineOf (width start))
    (hfirst : ∀ b' ∈ effects ctx, ctx.index.lineOf b'.start = ctx.index.lineOf (width start) →
      ctx.index.columnOf b.start ≤ ctx.index.columnOf b'.start) :
    b.start = width (start ++ front) := by
  obtain ⟨blanks, rest, -, hbefore⟩ := h.before
  obtain ⟨front', u', back', hopens, hwidth, -⟩ := exists_of_mem_effects hb
  obtain ⟨part, back, hmasked, -⟩ := hold.exists_eq
  rw [hctx, hmasked] at hstart hline hfirst
  rw [hwidth] at hline hfirst
  obtain ⟨p, rfl, -, hcolumn⟩ := LineIndex.exists_of_lineOf (hopens.text_eq.symm.trans hmasked) hstart hline
  rw [hwidth, hopens.eq_front hold hbefore h.plain h.first fun x v later hx hx' => ?_]
  obtain ⟨b', hb', hwidth'⟩ := hx'.exists_mem_effects
  have hsplit : start ++ (part ++ back) = start ++ x ++ (v ++ '\x7b' :: later) :=
    hmasked.symm.trans hx'.text_eq
  have hle := hfirst b' hb' (by rw [hwidth', hsplit]; exact LineIndex.lineOf_append hx _)
  rw [hcolumn, hwidth', hsplit, LineIndex.columnOf_append hx, ← hsplit, hstart] at hle
  omega

/-- The body of the effect is the block's, up to the blanks at its end. -/
theorem counted (h : Teardown language old new front u body)
    (hold : Excerpt ctx.masked start (mask language old)) (hb : b ∈ effects ctx)
    (hstart : b.start = width (start ++ front)) (hcounted : Counted (ctx.bodyOf b)) :
    Counted body := by
  obtain ⟨blanks, rest, hblanks, hopens⟩ := h.before
  have hlike := alike_bodyOf hb hold hopens h.plain hstart
    ((nested_append_blanks hblanks body 1).trans h.closed)
  exact (hcounted.alike hlike.symm).of_append

/-- With the new lines in their place the block returns a cleanup. -/
theorem hasCleanupReturn (h : Teardown language old new front u body)
    (hnew : Excerpt ctx.masked start (mask language new)) (hb : b ∈ effects ctx)
    (hstart : b.start = width (start ++ front)) (hcounted : Counted body) :
    React.hasCleanupReturn (ctx.bodyOf b) = true := by
  obtain ⟨blanks, later, hblanks, hword, hopens⟩ := h.after
  exact hasCleanupReturn_of_excerpt hb hnew hopens h.plain hstart
    ((nested_append_blanks hblanks body 1).trans h.closed) (hcounted.append_blanks hblanks) hword

end Teardown

end Mend.Synthesis
