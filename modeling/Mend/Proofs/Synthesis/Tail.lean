import Mend.Proofs.Patch.Resolved
import Mend.Proofs.Synthesis.Insertions
import Mend.Proofs.Text.Literal

/-!
# The tail of a window

A template masks the lines of its window from the focus on, and a rule masks the whole file. Where
the lexer comes by the start of a line in code, the mask of whole lines is the part of the mask that
stands at these lines (`mask_between`): no mark reaches over a line feed, so what follows the last of
the lines does not matter.

A window joins its lines by line feeds. In a file that ends its lines so, its tail is a part of the
file; in others it lacks the carriage returns, and its mask differs in blanks before line feeds
(`mask_tail`). But a backslash in a string takes one character along, the carriage return in the file
and the line feed in the tail, and then the two do not agree where strings end (`not_mask_tail`).
-/

namespace Mend.Text

open Patch Mask

variable {language : Language} {s : List Char}

/-! ## Whole lines -/

/-- A line starts at the offset, or the text ends there. -/
def LineStart (s : List Char) (o : Nat) : Prop :=
  o = 0 ∨ o = width s ∨ ∃ l t, s = l ++ '\n' :: t ∧ o = width l + 1

/-- The lexer comes by the offset in code: whole steps take what stands before it. -/
def ComesBy (language : Language) (s : List Char) (o : Nat) : Prop :=
  ∃ p t, s = p ++ t ∧ width p = o ∧ Visits language p t

/-- The lines between two offsets are masked apart from the rest of the text. -/
structure MaskedApart (language : Language) (s : List Char) (lo hi : Nat) (lines : List Char) :
    Prop where
  source : between lo hi s = .ok lines
  masked : between lo hi (mask language s) = .ok (mask language lines)

theorem width_mask (language : Language) (s : List Char) : width (mask language s) = width s :=
  (aligned_mask language s).1.symm

theorem maskedApart_append {front lines rest m : List Char}
    (h : mask language (front ++ (lines ++ rest)) =
      mask language front ++ (mask language lines ++ m)) :
    MaskedApart language (front ++ (lines ++ rest)) (width front) (width front + width lines)
      lines where
  source := between_eq front lines rest (List.append_assoc _ _ _).symm rfl rfl
  masked := between_eq (mask language front) (mask language lines) m
    (h.trans (List.append_assoc _ _ _).symm) (width_mask language front)
    (by rw [width_mask])

/-- What follows whole lines changes nothing of what is shown of them. -/
theorem exists_mask_lines (language : Language) {lines : List Char}
    (h : lines = [] ∨ ∃ l, lines = l ++ ['\n']) (t : List Char) :
    ∃ m, mask language (lines ++ t) = mask language lines ++ m := by
  rcases h with rfl | ⟨l, rfl⟩
  · exact ⟨mask language t, by rw [mask_nil]; rfl⟩
  obtain ⟨mode, m, hm⟩ := exists_mode language .code l
  have hline (t : List Char) : mask language (l ++ '\n' :: t) =
      m ++ '\n' :: (mode.next language '\n' []).mode.shown language t := by
    rw [← shown_code, hm _ (ahead_newline t), shown_newline]
  refine ⟨(mode.next language '\n' []).mode.shown language t, ?_⟩
  rw [List.append_assoc, List.singleton_append, hline, hline, shown_nil, List.append_assoc]
  rfl

/-- Where a later line starts, whole lines stand before it. -/
theorem LineStart.exists_lines {p t : List Char} {o : Nat} (h : LineStart (p ++ t) o)
    (hle : width p ≤ o) :
    ∃ lines rest, t = lines ++ rest ∧ width p + width lines = o ∧
      (rest = [] ∨ lines = [] ∨ ∃ l, lines = l ++ ['\n']) := by
  rcases h with rfl | rfl | ⟨l, rest, hs, rfl⟩
  · exact ⟨[], t, rfl, by rw [width]; omega, .inr (.inl rfl)⟩
  · exact ⟨t, [], (List.append_nil t).symm, (width_append p t).symm, .inl rfl⟩
  · have hwidth : width (l ++ ['\n']) = width l + 1 := width_append l ['\n']
    obtain ⟨lines, hl, rfl⟩ := exists_append_of_width (u := l ++ ['\n']) (v := rest)
      (by rw [hs]; simp) (by omega)
    refine ⟨lines, rest, rfl, by rw [← width_append, ← hl, hwidth], .inr ?_⟩
    rcases List.eq_nil_or_concat lines with rfl | ⟨front, c, rfl⟩
    · exact .inl rfl
    · rw [List.concat_eq_append] at hl ⊢
      rw [← List.append_assoc] at hl
      have hc := (List.append_inj' hl rfl).2
      exact .inr ⟨front, by rw [hc]⟩

/-- Lines that start in code and end where a line ends are masked apart. -/
theorem mask_between {p q : Nat} (hq : LineStart s q) (hle : p ≤ q) (h : ComesBy language s p) :
    ∃ lines, MaskedApart language s p q lines := by
  obtain ⟨front, t, rfl, rfl, hvisits⟩ := h
  obtain ⟨lines, rest, rfl, rfl, hlines⟩ := hq.exists_lines hle
  obtain ⟨m, hm⟩ : ∃ m, mask language (lines ++ rest) = mask language lines ++ m := by
    rcases hlines with rfl | hlines
    · exact ⟨[], by simp⟩
    · exact exists_mask_lines language hlines rest
  exact ⟨lines, maskedApart_append (by rw [hvisits.mask_append, hm])⟩

/-! ## The tail of a window -/

section

variable {place : List (List Char)}

/-- Lines and the same lines in a window differ in carriage returns before line feeds. -/
theorem alike_ended : ∀ {place : List (List Char)}, (∀ p ∈ place, Ended p) →
    Alike place.flatten (ended (place.map stripTerminator))
  | [], _ => .nil
  | p :: place, h => by
    have ih := alike_ended fun q hq => h q (List.mem_cons_of_mem p hq)
    have hp := h p List.mem_cons_self
    have hline : Alike p (stripTerminator p ++ ['\n']) := by
      have hwhole := stripTerminator_append (.inl hp)
      rcases isEnding_terminator hp with heol | heol
      · rw [heol] at hwhole
        rw [hwhole]
        exact .refl p
      · rw [heol] at hwhole
        nth_rewrite 1 [← hwhole]
        exact .append_left _ (.left (by decide) (.refl _))
    exact hline.append ih

/-- Lines that end in line feeds alone are the same in a window. -/
theorem ended_stripTerminator (h : ∀ p ∈ place, Ended p)
    (heol : ∀ p ∈ place, terminator p ≠ ['\r', '\n']) :
    ended (place.map stripTerminator) = place.flatten := by
  rw [ended, List.map_map]
  refine congrArg List.flatten ((List.map_congr_left fun p hp => ?_).trans (List.map_id place))
  have hwhole := stripTerminator_append (.inl (h p hp))
  rwa [(isEnding_terminator (h p hp)).resolve_right (heol p hp)] at hwhole

/-- What a line ends in stands in the text. -/
theorem infix_of_mem_place {p : List Char} {l eol : List Char} (hp : p ∈ place) (h : l ++ eol <:+ p)
    (last : List Char) : eol <:+: place.flatten ++ last :=
  ((List.suffix_append l eol).trans h).isInfix.trans
    ((List.infix_of_mem_flatten hp).trans (List.prefix_append _ last).isInfix)

end

/-- What is taken of a list from a place in it on is a part of it. -/
theorem exists_part_from {α : Type} {l : List α} {start count : Nat} (hstart : start < l.length)
    (hcount : 0 < count) : ∃ front place last back, l = front ++ (place ++ [last]) ++ back ∧
      front.length = start ∧ (l.drop start).take count = place ++ [last] := by
  have hwithin : start + min count (l.length - start) ≤ l.length := by omega
  obtain ⟨front, place, last, back, hl, hfront, hplace, -⟩ := exists_part_at (by omega) hwithin
  refine ⟨front, place, last, back, hl, hfront, ?_⟩
  rw [← hplace, List.take_eq_take_min, List.length_drop]

/-- The lines of a file that the tail of a window shows. -/
theorem exists_pieces_of_tail {path : Path} {content : String} {focus before after n : Nat}
    {tail : List Char} (h : (Window.of path content focus before after).tailFrom? n = some tail) :
    ∃ front place last back, pieces content.toList = front ++ (place ++ [last]) ++ back ∧
      front.length + 1 = n ∧
      tail = Window.joined ((place ++ [last]).map stripTerminator) := by
  have htail := Window.tailFrom?_eq h
  unfold Window.tailFrom? at h
  split at h
  · cases h
  next hin =>
  rw [Bool.or_eq_true, decide_eq_true_eq, decide_eq_true_eq, not_or, Nat.not_lt, Nat.not_le] at hin
  obtain ⟨hfirst, hlast⟩ := hin
  rw [show (Window.of path content focus before after).firstLine = max (max focus 1 - before) 1
    from rfl] at hfirst hlast htail
  simp only [Window.of, List.length_map, List.length_take, List.length_drop] at hlast
  have hstart : n - 1 < (pieces content.toList).length := by omega
  -- so many lines the window has from the line on
  have hcount : 0 < Count.wrapped (max focus 1 - max (max focus 1 - before) 1 + 1 + after) -
      (n - max (max focus 1 - before) 1) := by omega
  obtain ⟨front, place, last, back, hpieces, hfront, hplace⟩ := exists_part_from hstart hcount
  refine ⟨front, place, last, back, hpieces, by omega, ?_⟩
  rw [htail, Window.of, ← List.map_drop, List.drop_take, List.drop_drop,
    show max (max focus 1 - before) 1 - 1 + (n - max (max focus 1 - before) 1) = n - 1 by omega,
    hplace]

/-- The tail of a window and the lines of the file that it shows, masked apart. -/
theorem mask_tail {path : Path} {focus before after n : Nat} {tail : List Char}
    (h : (Window.of path (String.ofList s) focus before after).tailFrom? n = some tail)
    (hcode : ComesBy language s ((LineIndex.of s).lineStart n)) :
    ∃ hi lines, MaskedApart language s ((LineIndex.of s).lineStart n) hi lines ∧
      Alike lines tail ∧ (¬ ['\r', '\n'] <:+: lines → lines = tail) ∧
      (¬ ['\\', '\r', '\n'] <:+: lines → Alike (mask language lines) (mask language tail)) := by
  obtain ⟨front, place, last, back, hpieces, rfl, rfl⟩ := exists_pieces_of_tail h
  rw [String.toList_ofList] at hpieces
  have hended : ∀ p ∈ front ++ place, Ended p := by
    have happend : pieces s = (front ++ place) ++ (last :: back) := by simpa using hpieces
    exact ended_of_pieces_append happend (by simp)
  have hplace : ∀ p ∈ place, Ended p := fun p hp => hended p (List.mem_append_right _ hp)
  have hs := eq_append_of_pieces hpieces
  have hstart : (LineIndex.of s).lineStart (front.length + 1) = width front.flatten := by
    rw [hs]
    exact LineIndex.lineStart_lines (fun p hp => hended p (List.mem_append_left _ hp)) _
  rw [hstart] at hcode ⊢
  obtain ⟨p, t, hsplit, hwidth, hvisits⟩ := hcode
  obtain ⟨rfl, rfl⟩ := append_inj_of_width (hsplit.symm.trans hs) hwidth
  obtain ⟨m, hm⟩ := exists_mask_append language (place.flatten ++ stripTerminator last)
    (ahead_terminator (show pieces s = (front ++ place) ++ [last] ++ back by simp [hpieces]))
  have hmask := hvisits.mask_append
  rw [hm] at hmask
  have hjoined : Window.joined ((place ++ [last]).map stripTerminator) =
      ended (place.map stripTerminator) ++ stripTerminator last := by
    rw [List.map_append, List.map_singleton, joined_concat]
  have hcrlf {p : List Char} (hp : p ∈ place) (heol : terminator p = ['\r', '\n']) :
      stripTerminator p ++ ['\r', '\n'] = p := crlf_suffix_of_terminator (.inl (hplace p hp)) heol
  refine ⟨_, _, hsplit ▸ maskedApart_append hmask, ?_, fun hfeeds => ?_, fun hends => ?_⟩
  · rw [hjoined]
    exact (alike_ended hplace).append (.refl _)
  · rw [hjoined, ended_stripTerminator hplace fun p hp heol => hfeeds ?_]
    exact infix_of_mem_place hp ⟨[], hcrlf hp heol⟩ _
  · refine (sameLines_pieces hpieces fun p hp heol hback => hends ?_).alike_mask
    obtain ⟨l, hl⟩ := List.getLast?_eq_some_iff.mp hback
    refine infix_of_mem_place hp (l := l) ⟨[], ?_⟩ _
    rw [← hcrlf hp heol, hl]
    simp

/-- Masking commutes with cutting out whole lines, from a line start on that the lexer comes by. So
what a template sees of the tail of its window is what a rule sees of these lines of the file, where
no carriage return and line feed follow a backslash. -/
theorem mask_lines (language : Language) (s : List Char) :
    (∀ p q, LineStart s p → LineStart s q → p ≤ q → ComesBy language s p →
      ∃ lines, MaskedApart language s p q lines) ∧
    ∀ (path : Path) (focus before after n : Nat) (tail : List Char),
      (Window.of path (String.ofList s) focus before after).tailFrom? n = some tail →
      ComesBy language s ((LineIndex.of s).lineStart n) →
      ∃ hi lines, MaskedApart language s ((LineIndex.of s).lineStart n) hi lines ∧
        Alike lines tail ∧ (¬ ['\r', '\n'] <:+: lines → lines = tail) ∧
        (¬ ['\\', '\r', '\n'] <:+: lines → Alike (mask language lines) (mask language tail)) :=
  ⟨fun _ _ _ hq hle hcode => mask_between hq hle hcode,
    fun _ _ _ _ _ _ htail hcode => mask_tail htail hcode⟩

/-! ### Files with carriage returns -/

/-- A call in a block. -/
def guardedCall : String := "if (x) \x7b // b\r\n  g(`c`);\r\n\x7d\r\n"

theorem mask_lines_guardedCall :
    let s := "f('a');\r\n".toList ++ guardedCall.toList
    let tail := "if (x) \x7b // b\n  g(`c`);\n\x7d".toList
    ComesBy .javaScript s 9 ∧ (∃ lines, MaskedApart .javaScript s 9 24 lines) ∧
      (Window.of ⟨"/app/a.js"⟩ (String.ofList s) 2 1 8).tailFrom? 2 = some tail ∧
      ∃ hi lines, MaskedApart .javaScript s 9 hi lines ∧ Alike lines tail ∧
        (¬ ['\\', '\r', '\n'] <:+: lines →
          Alike (mask .javaScript lines) (mask .javaScript tail)) := by
  intro s tail
  have hcode : ComesBy .javaScript s 9 :=
    ⟨"f('a');\r\n".toList, guardedCall.toList, rfl, by decide +kernel,
      [.plain 'f', .plain '(', .quoted ['\''] ['a'] ['\''], .plain ')', .plain ';', .plain '\r',
        .plain '\n'], steps .javaScript guardedCall.toList, by decide +kernel, by decide +kernel⟩
  have hfirst : LineStart s 9 :=
    .inr (.inr ⟨"f('a');\r".toList, guardedCall.toList, by decide +kernel, by decide +kernel⟩)
  have hlast : LineStart s 24 := .inr (.inr ⟨"f('a');\r\nif (x) \x7b // b\r".toList,
    "  g(`c`);\r\n\x7d\r\n".toList, by decide +kernel, by decide +kernel⟩)
  have hshown : (Window.of ⟨"/app/a.js"⟩ (String.ofList s) 2 1 8).tailFrom? 2 = some tail := by
    decide +kernel
  obtain ⟨hcut, hwindow⟩ := mask_lines .javaScript s
  obtain ⟨hi, lines, hlines, halike, -, hmask⟩ := hwindow _ 2 1 8 2 tail hshown hcode
  exact ⟨hcode, hcut 9 24 hfirst hlast (by decide) hcode, hshown, hi, lines, hlines, halike, hmask⟩

/-- A string that goes on behind a backslash at the end of its line. -/
def escapedReturn : String :=
  "useEffect(() => \x7b f('a\\\r\n); const s = api.subscribe(g); \x7d, []); //'\r\n"

/-- The backslash takes the carriage return along in the file, where the string ends with the line,
and the line feed in the tail, where the string does not end. -/
theorem not_mask_tail : ¬ ∀ (language : Language) (s : List Char) (path : Path)
    (focus before after n : Nat) (tail : List Char),
    (Window.of path (String.ofList s) focus before after).tailFrom? n = some tail →
    ComesBy language s ((LineIndex.of s).lineStart n) →
    ∃ hi lines, MaskedApart language s ((LineIndex.of s).lineStart n) hi lines ∧
      Alike lines tail ∧ Alike (mask language lines) (mask language tail) := by
  intro h
  obtain ⟨hi, lines, ⟨hsource, -⟩, htext, hmask⟩ := h .javaScript escapedReturn.toList ⟨"/app/a.jsx"⟩
    1 3 12 1 "useEffect(() => \x7b f('a\\\n); const s = api.subscribe(g); \x7d, []); //'".toList
    (by decide +kernel) ⟨[], _, rfl, rfl, [], _, rfl, rfl⟩
  obtain ⟨front, back, hs, hfront, -⟩ := exists_of_between hsource
  obtain rfl := eq_nil_of_width hfront
  have hprefix : lines ∈ escapedReturn.toList.inits := (List.mem_inits _ _).mpr ⟨back, hs.symm⟩
  -- the bracket is in the tail, so it is in the lines, where the mask shows it
  have hshown : ∀ l ∈ escapedReturn.toList.inits, l.count '[' = 1 →
      (mask .javaScript l).count '[' = 1 := by decide +kernel
  have hbracket := hshown lines hprefix ((htext.count_eq (by decide)).trans (by decide +kernel))
  have hhidden := (hmask.count_eq (c := '[') (by decide)).trans
    (show _ = 0 by decide +kernel)
  rw [hhidden] at hbracket
  cases hbracket

end Mend.Text
