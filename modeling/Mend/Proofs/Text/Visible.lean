import Mend.Proofs.Text.Lexing
import Mend.Proofs.Text.Closing
import Mend.Proofs.Text.Returns

/-!
# Where the mask shows a character

A text keeps its width when it is masked, from whatever mode it is read (`Mode.width_shown`). Where
the mask shows a character that is quiet and no space, the lexer is in code: the mask shows what
comes before it and what comes after it as if either stood alone (`inCode_of_visible`). What it
shows at an offset is what the text has there, unless it is a space (`exists_of_masked`).

A text and its mask are cut alike: at one offset (`Covers.split`), between two (`Covers.cut`) and
line by line (`Covers.rows`). Where the mask of a part shows a character that is no space, the part
can be cut (`Covers.good`), so that what is found in the one may be taken out of the other.
-/

namespace Mend.Text.Mask

variable {language : Language}

/-! ## Widths -/

theorem width_blank (c : Char) : width (blank c) = c.utf8Size := by
  have h := (Aligned.blank c).1
  rw [width, width, Nat.add_zero] at h
  exact h.symm

/-- A mark of two characters is as wide as its blanks. -/
theorem width_blank_pair {a c d : Char} {s : List Char}
    (h : (decide (c = a) && decide (s.head? = some d)) = true) :
    width (blank c ++ blank d) = width (c :: s.take 1) := by
  simp only [Bool.and_eq_true, decide_eq_true_eq] at h
  obtain ⟨s, rfl⟩ := List.head?_eq_some_iff.mp h.2
  simp [width_append, width_blank, width]

theorem width_triple {c : Char} {s : List Char} (h : [c, c].isPrefixOf s = true) :
    width [c, c, c] = width (c :: s.take 2) := by
  obtain ⟨s, rfl⟩ := List.isPrefixOf_iff_prefix.mp h
  rfl

/-- What the mask shows of the characters that a move takes is as wide as they are. -/
theorem width_next (mode : Mode) (c : Char) (s : List Char) :
    width (mode.next language c s).shown =
      width (c :: s.take (mode.next language c s).more) := by
  have hblank : width (blank c) = width [c] := width_blank c
  cases mode with
  | code =>
    simp only [Mode.next]
    split
    · exact hblank
    split
    · next h => exact width_blank_pair h
    split
    · next h =>
      simp only [Bool.and_eq_true] at h
      exact width_triple h.1.2
    split
    · rfl
    split
    · rfl
    split
    · rfl
    · rfl
  | line =>
    simp only [Mode.next]
    split
    · rfl
    · exact hblank
  | block depth =>
    simp only [Mode.next]
    split
    · next h => exact width_blank_pair h
    split
    · next h => exact width_blank_pair h
    · exact hblank
  | string quote multiline =>
    simp only [Mode.next]
    split
    · exact hblank
    split
    · rfl
    · exact hblank
  | escaped quote multiline => exact hblank
  | triple quote =>
    simp only [Mode.next]
    split
    · next h =>
      simp only [Bool.and_eq_true, decide_eq_true_eq] at h
      obtain ⟨rfl, hquotes⟩ := h
      exact width_triple hquotes
    · exact hblank

/-- The mask keeps the width of a text. -/
theorem Mode.width_shown (mode : Mode) : ∀ s : List Char, width (mode.shown language s) = width s
  | [] => by simp
  | c :: s => by
    rw [shown_cons, width_append, width_shown _ (s.drop _), width_next, width, width, Nat.add_assoc,
      ← width_append, List.take_append_drop]
termination_by s => s.length
decreasing_by
  simp only [List.length_drop, List.length_cons]
  omega

/-! ## Character by character -/

theorem head?_blank {c : Char} (hc : c ≠ '\n') : (blank c).head? = some ' ' := by
  obtain ⟨n, hn⟩ := Nat.exists_eq_add_one.mpr c.utf8Size_pos
  rw [blank, if_neg hc, hn, List.replicate_succ, List.head?_cons]

/-- The second text is the first with some characters hidden, each behind as many spaces as it has
bytes. -/
inductive Covers : List Char → List Char → Prop
  | nil : Covers [] []
  | keep (c : Char) {s t : List Char} : Covers s t → Covers (c :: s) (c :: t)
  | hide (c : Char) {s t : List Char} : Covers s t → Covers (c :: s) (blank c ++ t)

namespace Covers

theorem refl : ∀ s : List Char, Covers s s
  | [] => nil
  | c :: s => keep c (refl s)

theorem append {s t s' t' : List Char} (h : Covers s t) (h' : Covers s' t') :
    Covers (s ++ s') (t ++ t') := by
  induction h with
  | nil => exact h'
  | keep c _ ih => exact keep c ih
  | hide c _ ih =>
    rw [List.append_assoc]
    exact hide c ih

theorem hidden : ∀ s : List Char, Covers s (Mask.hide s)
  | [] => nil
  | c :: s => hide c (hidden s)

/-- A character that is no space and is shown stands in the text at its offset. -/
theorem exists_source {c : Char} (hc : c ≠ ' ') {n : List Char} : ∀ {m s t : List Char},
    Covers s t → t = m ++ c :: n → ∃ p r, s = p ++ c :: r ∧ width p = width m := by
  intro m s t h
  induction h generalizing m with
  | nil => intro ht; cases m <;> cases ht
  | @keep d s t h ih =>
    intro ht
    cases m with
    | nil => exact ⟨[], s, by rw [(List.cons.inj ht).1]; rfl, rfl⟩
    | cons e m =>
      obtain ⟨rfl, hrest⟩ := List.cons.inj ht
      obtain ⟨p, r, rfl, hp⟩ := ih hrest
      exact ⟨d :: p, r, rfl, by rw [width, width, hp]⟩
  | @hide d s t h ih =>
    intro ht
    rcases List.append_eq_append_iff.mp ht with ⟨m', rfl, hrest⟩ | ⟨w, hw, hrest⟩
    · obtain ⟨p, r, rfl, hp⟩ := ih hrest
      exact ⟨d :: p, r, rfl, by rw [width_append, width_blank, width, hp]⟩
    · cases w with
      | nil =>
        obtain ⟨p, r, rfl, hp⟩ := ih (m := []) hrest.symm
        exact ⟨d :: p, r, rfl, by
          rw [List.append_nil] at hw
          rw [width, hp, ← hw, width_blank]
          rfl⟩
      | cons e w =>
        obtain ⟨rfl, -⟩ := List.cons.inj hrest
        -- the blank of a line feed is the line feed, and other blanks are spaces
        by_cases hd : d = '\n'
        · subst hd
          have hblank : m ++ c :: w = ['\n'] := hw.symm
          cases m with
          | nil => exact ⟨[], s, by rw [(List.cons.inj hblank).1]; rfl, rfl⟩
          | cons f m => simp at hblank
        · rw [blank, if_neg hd] at hw
          have hmem : c ∈ List.replicate d.utf8Size ' ' := hw ▸ List.mem_append_right _ List.mem_cons_self
          exact absurd (List.eq_of_mem_replicate hmem) hc

end Covers

theorem covers_masked : ∀ step : Step, Covers step.source step.masked
  | .plain _ => .refl _
  | .comment text => .hidden text
  | .quoted _ body _ => ((Covers.refl _).append (.hidden body)).append (.refl _)

theorem covers_mask (language : Language) (s : List Char) : Covers s (mask language s) := by
  have h : ∀ l : List Step, Covers (l.flatMap Step.source) (l.flatMap Step.masked) := by
    intro l
    induction l with
    | nil => exact .nil
    | cons step l ih => exact (covers_masked step).append ih
  have hsteps := h (steps language s)
  rwa [source_steps] at hsteps

/-- What the mask shows stands in the text at the same offset, unless it is a space. -/
theorem exists_source {c : Char} (hc : c ≠ ' ') {s m n : List Char}
    (h : mask language s = m ++ c :: n) : ∃ p r, s = p ++ c :: r ∧ width p = width m :=
  (covers_mask language s).exists_source hc h

theorem exists_of_masked {c : Char} (hc : c ≠ ' ') {s m n : List Char}
    (h : mask language s = m ++ c :: n) {p q : List Char} (hs : s = p ++ q)
    (hp : width p = width m) : ∃ r, q = c :: r := by
  obtain ⟨p', r, rfl, hp'⟩ := exists_source hc h
  exact ⟨r, (append_inj_of_width hs (hp'.trans hp.symm)).2.symm⟩

/-! ## Characters that are shown -/

theorem unmarked_cons {c : Char} (hc : isQuiet c = true) (s : List Char) : Unmarked (c :: s) := by
  intro d hd
  obtain rfl := Option.some.inj hd
  exact not_mem_marks hc

theorem ne_newline {c : Char} (hc : isQuiet c = true) : c ≠ '\n' := by
  rintro rfl
  cases hc

/-- A quiet character that is shown is read in code. -/
theorem eq_code_of_visible {c : Char} (hc : isQuiet c = true) (hne : c ≠ ' ') (mode : Mode)
    {r n : List Char} (h : mode.shown language (c :: r) = c :: n) :
    mode = .code ∧ n = mask language r := by
  have hread := @shown_quiet language mode r [c] (List.cons_ne_nil c []) (by simp [hc])
  rw [List.singleton_append, h] at hread
  have hhidden (hveil : mode.veil [c] = hide [c]) : False := by
    have hhead := congrArg List.head? hread
    rw [hveil, hide_cons, hide_nil, List.append_nil, List.head?_append,
      head?_blank (ne_newline hc), Option.some_or] at hhead
    exact hne (Option.some.inj hhead)
  cases mode with
  | code => exact ⟨rfl, (List.cons.inj hread).2⟩
  | _ => exact (hhidden rfl).elim

/-- A single quote opens a string that hides a quiet character after it, or it opens none. -/
theorem shown_single_quiet {c : Char} (hc : isQuiet c = true) (s : List Char) :
    (∃ t, mask language ('\'' :: c :: s) = '\'' :: (blank c ++ t)) ∨
      mask language ('\'' :: c :: s) = '\'' :: mask language (c :: s) ∧
        mask language ['\'', c] = '\'' :: mask language [c] := by
  have hmarks : c ≠ '\'' ∧ c ≠ '\\' := by
    constructor <;> rintro rfl <;> cases hc
  have hprefix (s : List Char) : ['\'', '\''].isPrefixOf (c :: s) = false := by
    simp [List.isPrefixOf_cons_cons, hmarks.1.symm]
  by_cases hstring : (language.singleQuoteStrings || isCharLiteral (c :: s)) = true
  · left
    refine ⟨(Mode.string .single false).shown language s, ?_⟩
    have hquiet := @shown_quiet language (.string .single false) s [c] (by simp) (by simp [hc])
    rw [← shown_code, shown_cons]
    simpa [Mode.next, hprefix, hstring, Mode.veil, Mode.settled] using hquiet
  · right
    rw [Bool.not_eq_true, Bool.or_eq_false_iff] at hstring
    have hone : isCharLiteral [c] = false := by simp [isCharLiteral, hmarks]
    constructor <;> rw [← shown_code, shown_cons] <;> simp [Mode.next, hprefix, hstring, hone]

/-- Where the mask shows a character that is quiet and no space, it is read in code, and what comes
before it is shown as it is without what follows. -/
theorem shown_of_visible {c : Char} (hc : isQuiet c = true) (hne : c ≠ ' ') {r n : List Char} :
    ∀ {p m : List Char} (mode : Mode), mode.shown language (p ++ c :: r) = m ++ c :: n →
      width m = width p → mode.shown language (p ++ [c]) = m ++ [c] ∧ n = mask language r
  | [], m, mode, h, hm => by
    obtain rfl := eq_nil_of_width hm
    obtain ⟨rfl, hn⟩ := eq_code_of_visible hc hne _ h
    exact ⟨mask_eq_of_quiet (u := [c]) (by simp [hc]), hn⟩
  | d :: p, m, mode, h, hm => by
    by_cases hsingle : mode = .code ∧ d = '\'' ∧ p = []
    · obtain ⟨rfl, rfl, rfl⟩ := hsingle
      have hquote {t : List Char} (ht : mask language ('\'' :: c :: r) = '\'' :: t) :
          m = ['\''] ∧ t = c :: n := by
        obtain ⟨hm', ht'⟩ := append_inj_of_width (s := ['\'']) (ht.symm.trans h) hm.symm
        exact ⟨hm'.symm, ht'⟩
      rcases @shown_single_quiet language c hc r with ⟨t, ht⟩ | ⟨ht, hone⟩
      · have hhead := congrArg List.head? (hquote ht).2
        rw [List.head?_append, head?_blank (ne_newline hc), Option.some_or] at hhead
        exact absurd (Option.some.inj hhead).symm hne
      · obtain ⟨rfl, hrest⟩ := hquote ht
        obtain ⟨-, hn⟩ := eq_code_of_visible hc hne .code hrest
        exact ⟨by simpa [mask_eq_of_quiet (u := [c]) (by simp [hc])] using hone, hn⟩
    · have hp : mode = .code → d = '\'' → p ≠ [] := fun hm hd hp => hsingle ⟨hm, hd, hp⟩
      have hmore := more_le language mode d p
      have hmove := @width_next language mode d p
      have hstep (s : List Char) : mode.shown language (d :: (p ++ c :: s)) =
          (mode.next language d p).shown ++ (mode.next language d p).mode.shown language
            (p.drop (mode.next language d p).more ++ c :: s) := by
        rw [shown_cons, next_append (unmarked_cons hc s) mode d hp,
          List.drop_append_of_le_length hmore]
      have hsplit : width (d :: p) = width (mode.next language d p).shown +
          width (p.drop (mode.next language d p).more) := by
        rw [hmove, ← width_append, List.cons_append, List.take_append_drop]
      rw [List.cons_append, hstep] at h
      obtain ⟨m', rfl, hrest⟩ := exists_append_of_width h (by omega)
      rw [width_append] at hm
      obtain ⟨hone, hn⟩ := shown_of_visible hc hne _ hrest (by omega)
      exact ⟨by rw [List.cons_append, hstep, hone, List.append_assoc], hn⟩
termination_by p => p.length
decreasing_by
  simp only [List.length_drop, List.length_cons]
  omega

/-- Where the mask of a text shows a character that is quiet and no space, the lexer is in code.
What comes before the character and what comes after it are masked as if they stood alone. -/
theorem inCode_of_visible {c : Char} (hc : isQuiet c = true) (hne : c ≠ ' ') {p r m n : List Char}
    (h : mask language (p ++ c :: r) = m ++ c :: n) (hm : width m = width p) :
    InCode language p ∧ m = mask language p ∧ n = mask language r := by
  obtain ⟨hone, hn⟩ := shown_of_visible hc hne .code h hm
  obtain ⟨mode, k, hk⟩ := exists_mode language .code p
  have hahead : Ahead [c] := ahead_cons hc (by simp)
  have hparts := (hk [c] hahead).symm.trans hone
  have hwidth : width k = width m := by
    have hnil := congrArg width (hk [] ahead_nil)
    rw [shown_nil, List.append_nil, List.append_nil, Mode.width_shown] at hnil
    exact hnil.symm.trans hm.symm
  obtain ⟨rfl, hlast⟩ := append_inj_of_width hparts hwidth
  obtain ⟨rfl, -⟩ := eq_code_of_visible hc hne _ hlast
  refine ⟨?_, ?_, hn⟩
  · rw [InCode, ← shown_code, hk _ ahead_paren, shown_code, ← shown_code, shown_paren,
      List.getLast?_append]
    rfl
  · have hnil := hk [] ahead_nil
    simpa using hnil.symm

/-- A character that the mask shows is shown in its line, too, if the rest of the text is cut off. -/
theorem exists_row_of_visible {c : Char} (hc : isQuiet c = true) (hne : c ≠ ' ')
    {p r m n : List Char} (h : mask language (p ++ c :: r) = m ++ c :: n)
    (hm : width m = width p) :
    ∃ n', mask language (p ++ c :: r.takeWhile (· ≠ '\n')) = mask language p ++ c :: n' := by
  obtain ⟨-, rfl, -⟩ := inCode_of_visible hc hne h hm
  have hnewline : c ≠ '\n' := by
    rintro rfl
    cases hc
  obtain ⟨k, hk⟩ := exists_mask_row language p (c :: r)
  rw [List.takeWhile_cons_of_pos (by simpa using hnewline)] at hk
  obtain ⟨z, hz, -⟩ := exists_append_of_width
    (show (mask language p ++ [c]) ++ n = _ ++ k by rw [← hk, h, List.append_assoc]; rfl)
    (by
      rw [← (aligned_mask language _).1, width_append, width_append, hm, width, width, width]
      omega)
  exact ⟨z, by rw [hz, List.append_assoc]; rfl⟩

/-- After a character that the mask shows a text goes on as if it started there. -/
theorem mask_shown {c : Char} (hc : isQuiet c = true) (hne : c ≠ ' ') {p r s n : List Char}
    (h : mask language (p ++ c :: s) = mask language p ++ c :: n) (hr : Ahead r) :
    mask language (p ++ c :: s ++ r) = mask language p ++ c :: mask language (s ++ r) := by
  obtain ⟨m, hm⟩ := exists_mask_append language (p ++ c :: s) hr
  have hsplit : p ++ c :: s ++ r = p ++ c :: (s ++ r) := by simp
  have hshown : mask language (p ++ c :: (s ++ r)) = mask language p ++ c :: (n ++ m) := by
    rw [← hsplit, hm, h]
    simp
  obtain ⟨-, -, hn⟩ := inCode_of_visible hc hne hshown (aligned_mask language p).1.symm
  rw [hsplit, hshown, hn]

end Mend.Text.Mask

namespace Mend.Text

/-! ## Parts of a text and of its mask -/

/-- A text goes on in the last row of what comes before it. -/
theorem rows_append_of_not_mem {s r : List Char} {rs : List (List Char)} (hs : rows s = r :: rs) :
    ∀ {l : List Char}, '\n' ∉ l → rows (l ++ s) = (l ++ r) :: rs
  | [], _ => hs
  | c :: l, h => by
    rw [List.mem_cons, not_or] at h
    rw [List.cons_append, rows, if_neg (Ne.symm h.1), rows_append_of_not_mem hs h.2]
    rfl

namespace Mask.Covers

variable {s t s' t' : List Char}

/-- A text and its mask, cut at the same offset. -/
theorem split : ∀ {s t : List Char}, Covers (s ++ s') (t ++ t') → width s = width t →
    Covers s t ∧ Covers s' t'
  | [], t, h, hwidth => by
    obtain rfl : t = [] := eq_nil_of_width hwidth.symm
    exact ⟨nil, h⟩
  | c :: s, t, h, hwidth => by
    generalize ht : t ++ t' = v at h
    cases h with
    | keep _ h =>
      cases t with
      | nil => exact absurd (eq_nil_of_width hwidth) (List.cons_ne_nil c s)
      | cons d t =>
        obtain ⟨rfl, rfl⟩ := List.cons.inj ht
        obtain ⟨hfront, hback⟩ := split h (Nat.add_left_cancel hwidth)
        exact ⟨keep _ hfront, hback⟩
    | hide _ h =>
      rw [width] at hwidth
      obtain ⟨w, rfl, rfl⟩ := exists_append_of_width ht.symm (by rw [width_blank]; omega)
      rw [width_append, width_blank] at hwidth
      obtain ⟨hfront, hback⟩ := split h (Nat.add_left_cancel hwidth)
      exact ⟨hide c hfront, hback⟩

/-- What the mask starts with starts the text, if there are no spaces in it. -/
theorem exists_append : ∀ {w s : List Char}, ' ' ∉ w → Covers s (w ++ t) →
    ∃ r, s = w ++ r ∧ Covers r t
  | [], s, _, h => ⟨s, rfl, h⟩
  | c :: w, s, hw, h => by
    rw [List.mem_cons, not_or] at hw
    obtain ⟨p, r, rfl, hp⟩ := h.exists_source (Ne.symm hw.1) (List.nil_append _).symm
    obtain rfl := eq_nil_of_width hp
    obtain ⟨-, hrest⟩ := @split _ _ [c] [c] h rfl
    obtain ⟨r, rfl, hr⟩ := exists_append hw.2 hrest
    exact ⟨r, rfl, hr⟩

/-- What the mask shows stands in the text at the same offset, if there are no spaces in it. -/
theorem exists_infix {m w n : List Char} (hw : ' ' ∉ w) (hne : w ≠ [])
    (h : Covers s (m ++ w ++ n)) : ∃ p r, s = p ++ w ++ r ∧ width p = width m := by
  obtain ⟨c, w, rfl⟩ := List.exists_cons_of_ne_nil hne
  have hc : c ≠ ' ' := fun hc => hw (hc ▸ List.mem_cons_self)
  rw [List.append_assoc] at h
  obtain ⟨p, r, rfl, hp⟩ := h.exists_source hc rfl
  obtain ⟨r', hr, -⟩ := exists_append hw (h.split hp).2
  exact ⟨p, r', by rw [hr, List.append_assoc], hp⟩

/-- A text and its mask, cut at the same two offsets. -/
theorem cut {lo hi : Nat} (h : Covers s t) (hlo : Good s lo) (hhi : Good s hi) (hlo' : Good t lo)
    (hhi' : Good t hi) (hle : lo ≤ hi) : Covers (Text.cut lo hi s) (Text.cut lo hi t) := by
  obtain ⟨front, mid, back, rfl, rfl, rfl⟩ := exists_part hlo hhi hle
  obtain ⟨front', mid', back', rfl, hfront, hmid⟩ := exists_part hlo' hhi' hle
  have hwidth : width mid = width mid' := by omega
  rw [List.append_assoc, List.append_assoc] at h
  obtain ⟨-, hrest⟩ := h.split hfront.symm
  obtain ⟨hpart, -⟩ := hrest.split hwidth
  rw [cut_append, ← hfront, hwidth, cut_append]
  exact hpart

/-- A text and its mask, line by line. -/
theorem rows (h : Covers s t) : List.Forall₂ Covers (Text.rows s) (Text.rows t) := by
  induction h with
  | nil => exact .cons nil .nil
  | @keep c s t _ ih =>
    obtain ⟨r, rs, hs⟩ := List.exists_cons_of_ne_nil (rows_ne_nil s)
    obtain ⟨q, qs, ht⟩ := List.exists_cons_of_ne_nil (rows_ne_nil t)
    rw [Text.rows, Text.rows]
    split
    · exact .cons nil ih
    · rw [hs, ht] at ih ⊢
      obtain ⟨hr, hrs⟩ := List.forall₂_cons.mp ih
      exact .cons (keep c hr) hrs
  | @hide c s t _ ih =>
    by_cases hc : c = '\n'
    · subst hc
      exact .cons nil ih
    · obtain ⟨r, rs, hs⟩ := List.exists_cons_of_ne_nil (rows_ne_nil s)
      obtain ⟨q, qs, ht⟩ := List.exists_cons_of_ne_nil (rows_ne_nil t)
      have hblank : '\n' ∉ blank c := by
        rw [blank, if_neg hc]
        exact fun hmem => absurd (List.eq_of_mem_replicate hmem) (by decide)
      rw [rows_append_of_not_mem ht hblank, Text.rows, if_neg hc, hs]
      rw [hs, ht] at ih
      obtain ⟨hr, hrs⟩ := List.forall₂_cons.mp ih
      exact .cons (hide c hr) hrs

/-! ## Offsets -/

/-- Around a character of the mask that is no space the text can be cut. -/
theorem good {c : Char} {m n : List Char} (h : Covers s (m ++ c :: n)) (hc : c ≠ ' ') :
    Good s (width m) ∧ Good s (width m + c.utf8Size) := by
  obtain ⟨p, r, rfl, hp⟩ := h.exists_source hc rfl
  rw [← hp]
  exact ⟨⟨p, _, rfl, rfl⟩, ⟨p ++ [c], r, by simp, by simp [width_append, width]⟩⟩

/-- At the brackets of a pair in the mask the text can be cut. -/
theorem good_of_matchingClose {opening close : Nat} (h : Covers s t)
    (hclose : matchingClose t opening = some close) :
    Good s opening ∧ Good s (opening + 1) ∧ Good s close := by
  obtain ⟨kind, front, mid, n, rfl, rfl, rfl, -⟩ := matchingClose_iff.mp hclose
  have hspace : kind.opener ≠ ' ' ∧ kind.closer ≠ ' ' := by
    cases kind <;> decide
  obtain ⟨hopening, hnext⟩ := h.good hspace.1
  rw [size_opener] at hnext
  rw [← List.cons_append, ← List.append_assoc] at h
  have hcloser := (h.good hspace.2).1
  rw [width_append, width, size_opener, ← Nat.add_assoc] at hcloser
  exact ⟨hopening, hnext, hcloser⟩

end Mask.Covers

end Mend.Text
