import Mend.Proofs.Pattern.Places
import Mend.Proofs.Rule.Cleanup
import Mend.Proofs.Text.Padding

/-!
# Cleanups at the end of a body

Every brace of a body is counted if none is opened right after a `return` below the top level
(`React.Counted`). This is so whatever blanks stand before line feeds (`React.Counted.alike`) or at
the end of the body, and a `return` that is put at the end of such a body is seen, if as many braces
are closed there as are open (`React.Counted.hasCleanupReturn`).
-/

namespace Mend

open Text Pattern Mask

namespace Text

/-! ## Blanks and words -/

/-- The code points of the blanks. -/
def blankPoints : List Nat :=
  List.range' 0x09 5 ++ [0x20, 0x85, 0xA0, 0x1680] ++ List.range' 0x2000 11
    ++ [0x2028, 0x2029, 0x202F, 0x205F, 0x3000]

theorem mem_blankPoints {c : Char} (h : isBlank c = true) : c.toNat ∈ blankPoints := by
  simp only [isBlank, Bool.or_eq_true, Bool.and_eq_true, decide_eq_true_eq, beq_iff_eq] at h
  simp only [blankPoints, List.mem_append, List.mem_cons, List.mem_range'_1, List.not_mem_nil,
    or_false]
  omega

/-- A blank is no character of a word. -/
theorem isWord_of_isBlank {c : Char} (h : isBlank c = true) : isWord c = false := by
  have hplain : ∀ n ∈ blankPoints, isWord (Char.ofNat n) = false := by decide +kernel
  have hc := hplain _ (mem_blankPoints h)
  rwa [Char.ofNat_toNat] at hc

theorem wordAfter_of_blanks {word : Bool} : ∀ {g : List Char}, g ≠ [] → g.all isBlank = true →
    wordAfter word g = false
  | [c], _, h => isWord_of_isBlank (by simpa using h)
  | c :: d :: g, _, h => by
    rw [List.all_cons, Bool.and_eq_true] at h
    show wordAfter (isWord c) (d :: g) = false
    exact wordAfter_of_blanks (List.cons_ne_nil d g) h.2

theorem isQuiet_of_isBlank {b : Char} (hb : isBlank b = true) (hn : b ≠ '\n') : isQuiet b = true := by
  have hmarks : marks.any isBlank = false := by decide
  simp only [isQuiet, Bool.and_eq_true, bne_iff_ne, Bool.not_eq_true', List.contains_eq_mem,
    decide_eq_false_iff_not]
  refine ⟨hn, fun hmem => ?_⟩
  exact List.any_eq_false.mp hmarks b hmem hb

theorem all_isBlank_veil {b : Char} (hb : isBlank b = true) : ∀ mode : Mode,
    mode.veil [b] ≠ [] ∧ (mode.veil [b]).all isBlank = true
  | .code => ⟨List.cons_ne_nil b [], by simpa [Mode.veil] using hb⟩
  | .line | .block _ | .string _ _ | .escaped _ _ | .triple _ => by
    have hsize := Nat.succ_pred_eq_of_pos b.utf8Size_pos
    simp only [Mode.veil, hide_cons, hide_nil, List.append_nil, Mask.blank]
    split
    · exact ⟨List.cons_ne_nil b [], by simpa using hb⟩
    · rw [← hsize, List.replicate_succ]
      refine ⟨List.cons_ne_nil _ _, List.all_eq_true.mpr fun c hc => ?_⟩
      rw [← List.replicate_succ] at hc
      rw [List.eq_of_mem_replicate hc]
      decide

theorem Alike.wordAfter_eq {s t : List Char} (h : Alike s t) :
    wordAfter false s = wordAfter false t := by
  rw [← getLast?_any_isWord, h.getLast?_eq, getLast?_any_isWord]

/-- The mask shows nothing of a word where the text ends in a blank. -/
theorem wordAfter_mask {language : Language} {s : List Char}
    (h : ∀ b ∈ s.getLast?, isBlank b = true) : wordAfter false (mask language s) = false := by
  rcases List.eq_nil_or_concat s with rfl | ⟨s, b, rfl⟩
  · rw [mask_nil]
    rfl
  · rw [List.concat_eq_append] at h ⊢
    have hb : isBlank b = true := h b (by simp)
    obtain ⟨mode, m, hm⟩ := exists_mode language .code s
    by_cases hnewline : b = '\n'
    · rw [← shown_code, hm _ (hnewline ▸ ahead_newline []), hnewline, shown_newline, shown_nil,
        wordAfter_append]
      rfl
    · have hquiet := isQuiet_of_isBlank hb hnewline
      obtain ⟨hne, hall⟩ := all_isBlank_veil hb mode
      have hshown := @shown_quiet language mode [] [b] (List.cons_ne_nil b []) (by simpa using hquiet)
      rw [List.append_nil, shown_nil, List.append_nil] at hshown
      rw [← shown_code, hm _ (ahead_cons hquiet (by simp)), hshown,
        wordAfter_append, wordAfter_of_blanks hne hall]

/-- A character that is not in the second part of a text is in the first one. -/
theorem exists_of_append_cons {s g a y : List Char} {c : Char} (h : s ++ g = a ++ c :: y)
    (hg : c ∉ g) : ∃ y', s = a ++ c :: y' ∧ y = y' ++ g := by
  rcases List.append_eq_append_iff.mp h with ⟨z, -, rfl⟩ | ⟨z, hs, hz⟩
  · exact absurd (List.mem_append_right z List.mem_cons_self) hg
  · cases z with
    | nil =>
      obtain rfl : g = c :: y := hz.symm
      exact absurd List.mem_cons_self hg
    | cons d z =>
      obtain ⟨rfl, rfl⟩ := List.cons.inj hz
      exact ⟨z, hs, rfl⟩

theorem not_mem_of_blanks {c : Char} {g : List Char} (hg : g.all isBlank = true)
    (hc : isBlank c = false) : c ∉ g := fun hmem => by
  rw [List.all_eq_true.mp hg c hmem] at hc
  cases hc

end Text

namespace React

variable {body s t : List Char}

/-- A `return` stands after what is no word, and before blanks and the character that is returned
first. -/
theorem returnsAt_iff {c : Char} {n : Nat} (hword : isWord c = false) (hblank : isBlank c = false) :
    ReturnsAt body n c ↔ ∃ x g y, body = x ++ "return".toList ++ (g ++ c :: y) ∧ x.length = n ∧
      g.all isBlank = true ∧ wordAfter false x = false := by
  constructor
  · rintro ⟨hat, hfind⟩
    obtain ⟨rest, hrest⟩ := exists_of_wordAt hat
    have hlength := length_of_wordAt hat
    have hsplit : body = body.take n ++ "return".toList ++ rest := by
      rw [List.append_assoc, ← hrest, List.take_append_drop]
    have hdrop : body.drop (n + 6) = rest := by
      rw [← List.drop_drop, hrest]
      rfl
    rw [hdrop] at hfind
    obtain ⟨-, g, y, rfl, hg⟩ := List.find?_eq_some_iff_append.mp hfind
    refine ⟨body.take n, g, y, hsplit, List.length_take_of_le (by omega),
      List.all_eq_true.mpr fun b hb => by simpa using hg b hb, ?_⟩
    simp only [wordAt, Bool.and_eq_true, Bool.not_eq_true'] at hat
    rw [← getLast?_any_isWord, hat.1.2]
  · rintro ⟨x, g, y, rfl, rfl, hg, hx⟩
    have hnext : (g ++ c :: y).head?.any isWord = false := by
      cases g with
      | nil => exact hword
      | cons b g =>
        rw [List.all_cons, Bool.and_eq_true] at hg
        exact isWord_of_isBlank hg.1
    have hdrop : (x ++ "return".toList ++ (g ++ c :: y)).drop (x.length + 6) = g ++ c :: y :=
      List.drop_left' (by simp)
    refine ⟨?_, ?_⟩
    · simp only [wordAt, Bool.and_eq_true, Bool.not_eq_true']
      rw [← List.head?_drop, show "return".toList.length = 6 from rfl, hdrop, hnext,
        List.append_assoc, List.drop_left, List.take_left, getLast?_any_isWord, hx]
      exact ⟨⟨List.isPrefixOf_iff_prefix.mpr (List.prefix_append _ _), rfl⟩, rfl⟩
    · rw [hdrop, List.find?_append, List.find?_cons_of_pos (by rw [hblank]; rfl)]
      rw [List.find?_eq_none.mpr fun b hb => by rw [List.all_eq_true.mp hg b hb]; decide]
      rfl

/-- No brace is opened right after a `return` but at the top level. -/
def Counted (body : List Char) : Prop := ∀ n, ReturnsAt body n '\x7b' → AtTop body n

instance (body : List Char) : Decidable (Counted body) :=
  decidable_of_iff _ forall_returnsAt_iff.symm

theorem counted_iff : Counted body ↔ ∀ x g y, body = x ++ "return".toList ++ (g ++ '\x7b' :: y) →
    g.all isBlank = true → wordAfter false x = false → x.count '\x7b' = x.count '\x7d' := by
  have hat {x rest : List Char} : AtTop (x ++ rest) x.length ↔ x.count '\x7b' = x.count '\x7d' := by
    rw [AtTop, List.take_left]
  constructor
  · rintro h x g y rfl hg hx
    have htop := h x.length ((returnsAt_iff (by decide) (by decide)).mpr ⟨x, g, y, rfl, rfl, hg, hx⟩)
    rw [List.append_assoc] at htop
    exact hat.mp htop
  · intro h n hn
    obtain ⟨x, g, y, hbody, rfl, hg, hx⟩ := (returnsAt_iff (by decide) (by decide)).mp hn
    have hcount := h x g y hbody hg hx
    rw [hbody, List.append_assoc]
    exact hat.mpr hcount

/-- What is opened right after a `return` in a text that another one is put after is opened in that
text: the word does not reach over its end, as letters would come before the second one. -/
theorem exists_of_return_append {x g y later : List Char}
    (h : s ++ ("return (".toList ++ later) = x ++ "return".toList ++ (g ++ '\x7b' :: y))
    (hlt : x.length < s.length) (hg : g.all isBlank = true) (hx : wordAfter false x = false)
    (hs : wordAfter false s = false) : ∃ y', s = x ++ "return".toList ++ (g ++ '\x7b' :: y') := by
  have hparts : s ++ ("return (".toList ++ later) = (x ++ "return".toList ++ g) ++ '\x7b' :: y := by
    rw [h, List.append_assoc _ g]
  rcases List.append_eq_append_iff.mp hparts with ⟨z, hz, hrest⟩ | ⟨z, hz, hrest⟩
  · exfalso
    cases z with
    | nil => cases hrest
    | cons c z =>
      obtain ⟨rfl, -⟩ := List.cons.inj hrest
      obtain ⟨z', hxs, -⟩ := exists_of_append_cons hz (not_mem_of_blanks hg (by decide))
      obtain ⟨w, rfl⟩ : x <+: s := List.prefix_of_prefix_length_le (List.prefix_append x _)
        (by rw [hxs]; exact List.prefix_append s _) hlt.le
      rw [List.append_assoc] at hxs
      have hw : w.all isWord = true := List.all_eq_true.mpr fun c hc =>
        List.all_eq_true.mp (by decide : "return".toList.all isWord = true) c
          (List.append_cancel_left hxs ▸ List.mem_append_left _ hc)
      rw [List.length_append] at hlt
      rw [wordAfter_append, hx, wordAfter_of_all (List.ne_nil_of_length_pos (by omega)) hw] at hs
      cases hs
  · cases z with
    | nil => cases hrest
    | cons c z =>
      obtain ⟨rfl, -⟩ := List.cons.inj hrest
      exact ⟨z, by rw [hz, List.append_assoc]⟩

namespace Counted

/-- Blanks before line feeds make no difference. -/
theorem alike (h : Counted s) (hst : Alike s t) : Counted t := by
  rw [counted_iff] at h ⊢
  rintro x g y rfl hg hx
  obtain ⟨x', v, hs, hxx', hv⟩ := hst.symm.exists_word (by decide) (by decide)
  obtain ⟨g', y', rfl, hgg', -⟩ := hv.exists_cut (by decide) rfl
  have hcount := h x' g' y' hs (hgg'.all_isBlank.symm.trans hg)
    (by rwa [← hxx'.wordAfter_eq])
  rwa [hxx'.count_eq (by decide), hxx'.count_eq (by decide)]

theorem of_append (h : Counted (s ++ t)) : Counted s := by
  rw [counted_iff] at h ⊢
  rintro x g y rfl hg hx
  exact h x g (y ++ t) (by simp) hg hx

/-- Neither do blanks at the end. -/
theorem append_blanks (h : Counted s) {blanks : List Char} (hblanks : blanks.all isBlank = true) :
    Counted (s ++ blanks) := by
  rw [counted_iff] at h ⊢
  intro x g y hsplit hg hx
  rw [← List.append_assoc] at hsplit
  obtain ⟨y', rfl, -⟩ := exists_of_append_cons hsplit (not_mem_of_blanks hblanks (by decide))
  exact h x g y' (List.append_assoc _ _ _) hg hx

/-- A `return` that is put after the body, where all its braces are closed, is seen. -/
theorem hasCleanupReturn (h : Counted s) (hlevel : s.count '\x7b' = s.count '\x7d')
    (hword : wordAfter false s = false) (later : List Char) :
    hasCleanupReturn (s ++ ("return (".toList ++ later)) = true := by
  have hreturn : ReturnsAt (s ++ ("return (".toList ++ later)) s.length '(' :=
    (returnsAt_iff (by decide) (by decide)).mpr ⟨s, [' '], later, by simp, rfl, by decide, hword⟩
  refine hasCleanupReturn_of_returnsValueAt ⟨'(', hreturn, by decide, by decide, ?_⟩ ?_
  · rwa [AtTop, List.take_left]
  · intro k hk hbrace
    obtain ⟨x, g, y, hsplit, rfl, hg, hx⟩ := (returnsAt_iff (by decide) (by decide)).mp hbrace
    obtain ⟨y', hs⟩ := exists_of_return_append hsplit hk hg hx hword
    rw [hsplit, AtTop, List.append_assoc, List.take_left]
    exact counted_iff.mp h x g y' hs hg hx

end Counted

end React

end Mend
