import Mend.Proofs.Text.Balance

/-!
# Literals of one character

In Kotlin, Java and Swift a single quote begins a literal only before one character and another
single quote. Where the lexer comes by the seam of two texts in code (`Visits`), the texts are masked
apart (`Visits.mask_append`): a step that ends before the seam takes the same characters where
nothing follows (`step_of_append`), or else shows the same (`masked_of_append`).

So a literal of one byte is hidden and leaves the rest of the text alone (`mask_charLiteral`). One of
several bytes is taken for no literal, and its closing quote can make one with what follows
(`not_mask_charLiteral`).
-/

namespace Mend.Text.Mask

/-! ## Reading over a seam -/

section

variable {quote : Char} {multiline nested : Bool} {t : List Char}

/-- A string ends before the seam, or takes all that stands there. -/
theorem stringBody_append (quote : Char) (multiline : Bool) (p t : List Char) :
    stringBody quote multiline (p ++ t) =
        ((stringBody quote multiline p).1, (stringBody quote multiline p).2 ++ t) ∨
      (stringBody quote multiline (p ++ t)).2.length ≤ t.length := by
  fun_induction stringBody quote multiline p with
  | case1 => exact .inr (length_stringBody quote multiline t)
  | case2 =>
    cases t with
    | nil => exact .inl rfl
    | cons d t =>
      have hle := length_stringBody quote multiline t
      right
      simp only [List.singleton_append, stringBody, if_true, List.length_cons]
      omega
  | case3 d s body rest hbody ih =>
    rw [hbody] at ih
    simp only [List.cons_append, stringBody, if_true]
    exact ih.imp_left fun h => by rw [h]
  | case4 c s hc hend =>
    left
    rw [List.cons_append, stringBody.eq_def]
    simp only [hc, hend, if_true, if_false]
  | case5 c s hc hend body rest hbody ih =>
    rw [hbody] at ih
    rw [List.cons_append, stringBody.eq_def]
    simp only [hc, hend, if_false]
    exact ih.imp_left fun h => by rw [h]; rfl

/-- A string between triple quotes ends before the seam, or its closing quotes do not. -/
theorem tripleBody_append (quote : Char) (p t : List Char) :
    tripleBody quote (p ++ t) = ((tripleBody quote p).1, (tripleBody quote p).2 ++ t) ∨
      (tripleBody quote (p ++ t)).2.length < t.length + 3 := by
  fun_induction tripleBody quote p with
  | case1 =>
    have hle := length_tripleBody quote t
    exact .inr (by rw [List.nil_append]; omega)
  | case2 c s h =>
    left
    have hprefix := (List.isPrefixOf_iff_prefix.mp h).trans (List.prefix_append (c :: s) t)
    rw [List.cons_append] at hprefix ⊢
    rw [tripleBody, if_pos (List.isPrefixOf_iff_prefix.mpr hprefix)]
  | case3 c s h body rest hbody ih =>
    rw [hbody] at ih
    rw [List.cons_append, tripleBody]
    split
    · next hclose =>
      -- The closing quotes begin before the seam and end behind it.
      right
      by_contra hlong
      simp only [List.length_cons, List.length_append] at hlong
      have hwhole := List.isPrefixOf_iff_prefix.mp hclose
      rw [← List.cons_append] at hwhole
      exact h (List.isPrefixOf_iff_prefix.mpr (List.prefix_of_prefix_length_le hwhole
        (List.prefix_append (c :: s) t) (by simp only [List.length_cons, List.length_nil]; omega)))
    · exact ih.imp_left fun h => by rw [h]

theorem length_blockBody_lt {depth : Nat} {s : List Char} (hs : s ≠ []) :
    (blockBody nested depth s).2.length < s.length := by
  fun_cases blockBody nested depth s with
  | case1 => exact absurd rfl hs
  | case2 => exact Nat.one_pos
  | case3 depth c d s hopen body rest hbody =>
    have hle := length_blockBody nested (if nested then depth + 1 else depth) s
    simp only [hbody, List.length_cons] at hle ⊢
    omega
  | case4 c d s => simp only [List.length_cons]; omega
  | case5 c d s hopen hclose depth body rest hbody =>
    have hle := length_blockBody nested depth s
    simp only [hbody, List.length_cons] at hle ⊢
    omega
  | case6 depth c d s hopen hclose body rest hbody =>
    have hle := length_blockBody nested depth (d :: s)
    simp only [hbody, List.length_cons] at hle ⊢
    omega

/-- A block comment ends before the seam, or reaches over it. -/
theorem blockBody_append (nested : Bool) (depth : Nat) (p : List Char) (ht : t ≠ []) :
    blockBody nested depth (p ++ t) =
        ((blockBody nested depth p).1, (blockBody nested depth p).2 ++ t) ∨
      (blockBody nested depth (p ++ t)).2.length < t.length := by
  fun_induction blockBody nested depth p with
  | case1 depth => exact .inr (length_blockBody_lt ht)
  | case2 depth c =>
    right
    obtain ⟨d, t, rfl⟩ := List.exists_cons_of_ne_nil ht
    have hle (depth : Nat) := length_blockBody nested depth t
    rw [List.singleton_append, blockBody.eq_def]
    dsimp only
    split
    · exact Nat.lt_succ_of_le (hle _)
    split
    · cases depth with
      | zero => exact Nat.lt_succ_self _
      | succ depth => exact Nat.lt_succ_of_le (hle depth)
    · exact length_blockBody_lt ht
  | case3 depth c d s hopen body rest hbody ih =>
    rw [hbody] at ih
    simp only [List.cons_append, blockBody, hopen, if_true]
    exact ih.imp_left fun h => by rw [h]
  | case4 c d s hopen hclose => simp [blockBody, hopen, hclose]
  | case5 c d s hopen hclose depth body rest hbody ih =>
    rw [hbody] at ih
    simp only [List.cons_append, blockBody, hopen, hclose, if_true]
    exact ih.imp_left fun h => by rw [h]; rfl
  | case6 depth c d s hopen hclose body rest hbody ih =>
    rw [hbody, List.cons_append] at ih
    rw [List.cons_append, List.cons_append, blockBody.eq_def]
    simp only [hopen, hclose]
    exact ih.imp_left fun h => by rw [h]; rfl

theorem dropWhile_of_append {f : Char → Bool} {p t q : List Char}
    (h : (p ++ t).dropWhile f = q ++ t) :
    (p ++ t).takeWhile f = p.takeWhile f ∧ p.dropWhile f = q := by
  induction p with
  | nil =>
    cases t with
    | nil => exact ⟨rfl, by simpa using h⟩
    | cons d t =>
      cases hd : f d with
      | true =>
        have hle := length_dropWhile_le f t
        have hlength := congrArg List.length h
        simp only [List.nil_append, List.dropWhile_cons, hd, if_true, List.length_append,
          List.length_cons] at hlength
        omega
      | false =>
        rw [List.nil_append, List.dropWhile_cons_of_neg (by simp [hd])] at h
        exact ⟨by simp [hd], (List.append_cancel_right (show [] ++ d :: t = q ++ d :: t from h))⟩
  | cons c p ih =>
    cases hc : f c with
    | true =>
      simp only [List.cons_append, List.dropWhile_cons, List.takeWhile_cons, hc, if_true] at h ⊢
      obtain ⟨htake, hdrop⟩ := ih h
      exact ⟨by rw [htake], hdrop⟩
    | false =>
      simp only [List.cons_append, List.dropWhile_cons, List.takeWhile_cons, hc] at h ⊢
      exact ⟨rfl, List.append_cancel_right h⟩

theorem blockBody_of_append {depth : Nat} {p q : List Char} (ht : t ≠ [])
    (h : (blockBody nested depth (p ++ t)).2 = q ++ t) :
    blockBody nested depth p = ((blockBody nested depth (p ++ t)).1, q) := by
  rcases blockBody_append nested depth p ht with hbody | hlong
  · rw [hbody] at h ⊢
    exact Prod.ext rfl (List.append_cancel_right h)
  · rw [h, List.length_append] at hlong
    omega

/-- Where all that follows a text is left over, the text alone leaves the rest of it over. -/
theorem drop_of_append {n : Nat} {r q : List Char} (ht : t ≠ [])
    (h : (r ++ t).drop n = q ++ t) : (r ++ t).take n = r.take n ∧ r.drop n = q ∧ n ≤ r.length := by
  have hlength := congrArg List.length h
  have hpos := List.length_pos_iff.mpr ht
  rw [List.length_drop, List.length_append, List.length_append] at hlength
  have hn : n ≤ r.length := by omega
  rw [List.drop_append_of_le_length hn] at h
  exact ⟨List.take_append_of_le_length hn, List.append_cancel_right h, hn⟩

theorem tripleBody_of_append {p q : List Char} (ht : t ≠ [])
    (h : (tripleBody quote (p ++ t)).2.drop 3 = q ++ t) :
    (tripleBody quote (p ++ t)).1 = (tripleBody quote p).1 ∧
      (tripleBody quote (p ++ t)).2.take 3 = (tripleBody quote p).2.take 3 ∧
        (tripleBody quote p).2.drop 3 = q := by
  rcases tripleBody_append quote p t with hbody | hlong
  · rw [hbody] at h ⊢
    obtain ⟨htake, hdrop, -⟩ := drop_of_append ht h
    exact ⟨rfl, htake, hdrop⟩
  · have hlength := congrArg List.length h
    have hpos := List.length_pos_iff.mpr ht
    rw [List.length_drop, List.length_append] at hlength
    omega

theorem quotedStep_of_append {p q : List Char} {st : Step} (ht : t ≠ [])
    (h : quotedStep quote multiline (p ++ t) = (st, q ++ t)) :
    quotedStep quote multiline p = (st, q) ∧ (stringBody quote multiline p).2 ≠ [] := by
  simp only [quotedStep, Prod.mk.injEq] at h ⊢
  obtain ⟨hstep, hrest⟩ := h
  rcases stringBody_append quote multiline p t with hbody | hlong
  · rw [hbody] at hstep hrest
    obtain ⟨htake, hdrop, hpos⟩ := drop_of_append ht hrest
    exact ⟨⟨by rw [← hstep, htake], hdrop⟩, List.length_pos_iff.mp hpos⟩
  · have hlength := congrArg List.length hrest
    have hpos := List.length_pos_iff.mpr ht
    rw [List.length_drop, List.length_append] at hlength
    omega

/-- One character alone hides nothing. -/
theorem mask_singleton (language : Language) (c : Char) : mask language [c] = [c] := by
  rw [mask_cons]
  unfold step
  simp only [List.head?_nil, quotedStep, stringBody]
  grind [Step.masked, mask_nil, hide_nil, isCharLiteral]

/-- A mark of two characters that begins in a text is seen whatever follows. -/
theorem mark_append {c d e : Char} {p : List Char} (t : List Char)
    (h : (decide (c = d) && decide (p.head? = some e)) = true) :
    (decide (c = d) && decide ((p ++ t).head? = some e)) = true := by
  simp only [Bool.and_eq_true, decide_eq_true_eq] at h ⊢
  exact ⟨h.1, by rw [List.head?_append, h.2, Option.some_or]⟩

theorem isCharLiteral_append {p : List Char} (t : List Char) (h : isCharLiteral p = true) :
    isCharLiteral (p ++ t) = true := by
  match p, t with
  | [c], [] => exact h
  | [c], d :: t => simpa [isCharLiteral] using Or.inl (by simpa [isCharLiteral] using h)
  | c :: d :: p, t => exact h

/-- A line comment that ends before the seam is one of the text before it. -/
theorem lineComment_of_append {c : Char} {p q : List Char} {st : Step}
    (hmark : (decide (c = '/') && decide ((p ++ t).head? = some '/')) = true)
    (h : (Step.comment (c :: (p ++ t).takeWhile (· ≠ '\n')), (p ++ t).dropWhile (· ≠ '\n')) =
      (st, q ++ t)) :
    (decide (c = '/') && decide (p.head? = some '/')) = true ∧
      (Step.comment (c :: p.takeWhile (· ≠ '\n')), p.dropWhile (· ≠ '\n')) = (st, q) := by
  obtain ⟨rfl, hrest⟩ := Prod.mk.inj h
  obtain ⟨htake, hdrop⟩ := dropWhile_of_append hrest
  cases p with
  | nil =>
    simp only [List.nil_append, Bool.and_eq_true, decide_eq_true_eq] at hmark htake
    obtain ⟨t, rfl⟩ := List.head?_eq_some_iff.mp hmark.2
    simp at htake
  | cons d p =>
    rw [List.cons_append, List.head?_cons] at hmark
    exact ⟨hmark, by rw [htake, hdrop]⟩

/-- A string between triple quotes that ends before the seam is one of the text before it. -/
theorem tripleQuoted_of_append {c : Char} {p q : List Char} {st : Step} (ht : t ≠ [])
    (hlength : 3 ≤ p.length + 1)
    (h : (Step.quoted [c, c, c] (tripleBody c ((p ++ t).drop 2)).1
        ((tripleBody c ((p ++ t).drop 2)).2.take 3), (tripleBody c ((p ++ t).drop 2)).2.drop 3) =
      (st, q ++ t)) :
    [c, c].isPrefixOf (p ++ t) = [c, c].isPrefixOf p ∧
      (Step.quoted [c, c, c] (tripleBody c (p.drop 2)).1 ((tripleBody c (p.drop 2)).2.take 3),
        (tripleBody c (p.drop 2)).2.drop 3) = (st, q) := by
  obtain ⟨rfl, hrest⟩ := Prod.mk.inj h
  match p, hlength with
  | d :: e :: p, _ =>
    obtain ⟨hbody, htake, hdrop⟩ := tripleBody_of_append (p := p) ht hrest
    refine ⟨by simp [List.isPrefixOf], ?_⟩
    simp only [List.cons_append, List.drop_succ_cons, List.drop_zero, hbody, htake, hdrop]

/-- A line feed or a quote after a single quote ends the string that the single quote seems to open.
-/
theorem quotedStep_singleton {d : Char} (hd : d ≠ '\\') (h : (stringBody quote false [d]).2 ≠ []) :
    quotedStep quote false [d] = (.quoted [quote] [] [d], []) := by
  have hbody : stringBody quote false [d] = ([], [d]) := by
    rw [stringBody.eq_def] at h ⊢
    simp only [hd, if_false] at h ⊢
    split at h
    · next hclose => rw [if_pos hclose]
    · exact absurd rfl h
  rw [quotedStep, hbody]
  rfl

/-- A step that ends before the seam is the step that the text before it takes alone; but a single
quote before one last character may begin a literal with what follows only. -/
theorem step_of_append {language : Language} {c : Char} {p q : List Char} {st : Step}
    (ht : t ≠ []) (h : step language c (p ++ t) = (st, q ++ t)) :
    step language c p = (st, q) ∨
      ∃ d, p = [d] ∧ q = [] ∧ st = .quoted [c] [] [d] ∧ step language c p = (.plain c, p) := by
  have hsource := source_step language c (p ++ t)
  rw [h, ← List.append_assoc, ← List.cons_append] at hsource
  have hlength := congrArg List.length (List.append_cancel_right hsource)
  rw [List.length_append, List.length_cons] at hlength
  unfold step at h ⊢
  split at h
  · next hmark =>
    obtain ⟨hmark, hstep⟩ := lineComment_of_append hmark h
    rw [if_pos hmark, hstep]
    exact Or.inl rfl
  next hline =>
  rw [if_neg (hline ∘ mark_append t)]
  split at h
  · next hmark =>
    obtain ⟨rfl, hrest⟩ := Prod.mk.inj h
    rw [Step.source, List.length_cons, List.length_cons] at hlength
    obtain ⟨d, p, rfl⟩ := List.exists_cons_of_length_pos (show 0 < p.length by omega)
    rw [List.cons_append, List.head?_cons] at hmark
    rw [List.head?_cons, if_pos hmark, List.drop_one, List.tail_cons, blockBody_of_append ht hrest]
    exact Or.inl rfl
  next hblock =>
  rw [if_neg (hblock ∘ mark_append t)]
  split at h
  · next hmark =>
    have hlong : 3 ≤ p.length + 1 := by
      rw [← (Prod.mk.inj h).1] at hlength
      simp only [Step.source, List.length_cons, List.length_append] at hlength
      omega
    obtain ⟨hopening, hstep⟩ := tripleQuoted_of_append ht hlong h
    rw [hopening] at hmark
    rw [if_pos hmark]
    exact Or.inl hstep
  next htriple =>
  have hprefix (hp : [c, c].isPrefixOf p) : [c, c].isPrefixOf (p ++ t) :=
    List.isPrefixOf_iff_prefix.mpr
      ((List.isPrefixOf_iff_prefix.mp hp).trans (List.prefix_append p t))
  rw [if_neg fun hp => htriple (by
    simp only [Bool.and_eq_true] at hp ⊢
    exact ⟨⟨hp.1.1, hprefix hp.1.2⟩, hp.2⟩)]
  split at h
  · next hmark => exact Or.inl (by rw [if_pos hmark, (quotedStep_of_append ht h).1])
  next hback =>
  rw [if_neg hback]
  split at h
  · next hmark => exact Or.inl (by rw [if_pos hmark, (quotedStep_of_append ht h).1])
  next hdouble =>
  rw [if_neg hdouble]
  split at h
  · next hmark =>
    obtain ⟨hstep, hend⟩ := quotedStep_of_append ht h
    split
    · exact Or.inl hstep
    next hplain =>
    obtain ⟨d, rfl⟩ : ∃ d, p = [d] := by
      rcases p with _ | ⟨d, _ | ⟨e, p⟩⟩
      · exact absurd rfl hend
      · exact ⟨d, rfl⟩
      · exact absurd hmark hplain
    have hd : d ≠ '\\' := by
      rintro rfl
      rw [Bool.and_eq_true] at hmark
      exact hplain (by rw [hmark.1]; simp [isCharLiteral])
    obtain ⟨hquoted, hrest⟩ := Prod.mk.inj ((quotedStep_singleton hd hend).symm.trans hstep)
    exact Or.inr ⟨d, rfl, hrest.symm, hquoted.symm, rfl⟩
  · next hplain =>
    obtain ⟨rfl, hrest⟩ := Prod.mk.inj h
    rw [if_neg, List.append_cancel_right hrest]
    · exact Or.inl rfl
    intro hmark
    simp only [Bool.and_eq_true, Bool.or_eq_true] at hmark hplain
    exact hplain ⟨hmark.1, hmark.2.imp_right (isCharLiteral_append t)⟩

/-- A step that ends before the seam shows what the mask shows of the text before it. -/
theorem masked_of_append {language : Language} {c : Char} {p q : List Char} {st : Step}
    (ht : t ≠ []) (h : step language c (p ++ t) = (st, q ++ t)) :
    mask language (c :: p) = st.masked ++ mask language q := by
  rcases step_of_append ht h with hstep | ⟨d, rfl, rfl, rfl, hstep⟩
  · rw [mask_cons, hstep]
  · rw [mask_cons, hstep, mask_singleton, mask_nil]
    rfl

end

/-- The lexer comes by the seam of two texts: whole steps take what stands before it. -/
def Visits (language : Language) (p t : List Char) : Prop :=
  ∃ before after : List Step, steps language (p ++ t) = before ++ after ∧
    before.flatMap Step.source = p

/-- Where the lexer comes by a seam in code, the texts on both sides are masked apart. -/
theorem Visits.mask_append {language : Language} {p t : List Char} (h : Visits language p t) :
    mask language (p ++ t) = mask language p ++ mask language t := by
  obtain ⟨before, after, hsteps, hsource⟩ := h
  by_cases ht : t = []
  · rw [ht, List.append_nil, mask_nil, List.append_nil]
  induction before generalizing p with
  | nil =>
    obtain rfl : [] = p := hsource
    rw [mask_nil]
    rfl
  | cons st before ih =>
    cases p with
    | nil => rw [List.nil_append, mask_nil, List.nil_append]
    | cons c p =>
      rw [List.cons_append, steps, List.cons_append, List.cons.injEq] at hsteps
      obtain ⟨hst, hlater⟩ := hsteps
      have hrest : (step language c (p ++ t)).2 = before.flatMap Step.source ++ t := by
        have hwhole := source_step language c (p ++ t)
        rw [hst, ← List.cons_append, ← hsource, List.flatMap_cons, List.append_assoc] at hwhole
        exact List.append_cancel_left hwhole
      rw [hrest] at hlater
      have hstep : step language c (p ++ t) = (st, before.flatMap Step.source ++ t) :=
        Prod.ext hst hrest
      rw [List.cons_append, mask_cons, hst, hrest, ih hlater rfl, masked_of_append ht hstep,
        List.append_assoc]

/-! ## Literals of one character -/

section

variable {language : Language} {c : Char}

/-- A character of one byte between single quotes is hidden. -/
theorem mask_literal (hquote : c ≠ '\'') (hback : c ≠ '\\') (hline : c ≠ '\n')
    (hsize : c.utf8Size = 1) (b : List Char) :
    mask language ('\'' :: c :: '\'' :: b) = '\'' :: ' ' :: '\'' :: mask language b := by
  have hprefix : ['\'', '\''].isPrefixOf (c :: '\'' :: b) = false := by
    simp [List.isPrefixOf, hquote.symm]
  have hliteral : isCharLiteral (c :: '\'' :: b) = true := by simp [isCharLiteral, hsize]
  have hbody : stringBody '\'' false (c :: '\'' :: b) = ([c], '\'' :: b) := by
    have hclose : stringBody '\'' false ('\'' :: b) = ([], '\'' :: b) := by
      rw [stringBody.eq_def]
      simp
    simp [stringBody, hquote, hback, hline, hclose]
  rw [mask_cons]
  simp [step, quotedStep, hprefix, hliteral, hbody, Step.masked, blank, hline, hsize]

/-- A character of several bytes between single quotes is taken for no literal: the quote before it
means nothing, and the one after it is read with what follows. -/
theorem mask_wide (hlanguage : language.singleQuoteStrings = false) (hsize : 1 < c.utf8Size)
    (b : List Char) :
    mask language ('\'' :: c :: '\'' :: b) = '\'' :: c :: mask language ('\'' :: b) := by
  have hne {a : Char} (ha : a.utf8Size = 1) : c ≠ a := by
    rintro rfl
    omega
  have hquiet : isQuiet c = true := by
    simp [isQuiet, marks, hne (a := '\n') rfl, hne (a := '/') rfl, hne (a := '*') rfl,
      hne (a := '\\') rfl, hne (a := '"') rfl, hne (a := '\'') rfl, hne (a := '`') rfl]
  have hprefix : ['\'', '\''].isPrefixOf (c :: '\'' :: b) = false := by
    simp [List.isPrefixOf, (hne (a := '\'') rfl).symm]
  have hliteral : isCharLiteral (c :: '\'' :: b) = false := by
    simp [isCharLiteral, hne (a := '\\') rfl, Nat.ne_of_gt hsize]
  have hstep : step language '\'' (c :: '\'' :: b) = (.plain '\'', c :: '\'' :: b) := by
    simp [step, hlanguage, hprefix, hliteral]
  rw [mask_cons, hstep]
  show ['\''] ++ mask language ([c] ++ '\'' :: b) = _
  rw [mask_quiet (by simpa using hquiet)]
  rfl

/-- A literal of one character in code. A character of one byte is hidden, the quotes are shown, and
the texts before and after are masked apart; so the rest of the text counts its brackets on from
those before. A character of several bytes is shown: its closing quote is read with what follows as
though a literal could begin there. -/
theorem mask_charLiteral (hlanguage : language.singleQuoteStrings = false) {a b : List Char}
    (hquote : c ≠ '\'') (hback : c ≠ '\\') (hline : c ≠ '\n')
    (h : Visits language a ('\'' :: c :: '\'' :: b)) :
    (c.utf8Size = 1 →
      mask language (a ++ '\'' :: c :: '\'' :: b) =
          mask language a ++ ['\''] ++ List.replicate c.utf8Size ' ' ++ ['\''] ++ mask language b ∧
        Balance.of language (a ++ '\'' :: c :: '\'' :: b) =
          (Balance.of language a).after (mask language b)) ∧
      (1 < c.utf8Size →
        mask language (a ++ '\'' :: c :: '\'' :: b) =
          mask language a ++ ['\'', c] ++ mask language ('\'' :: b)) := by
  refine ⟨fun hsize => ?_, fun hsize => ?_⟩
  · have hmask : mask language (a ++ '\'' :: c :: '\'' :: b) =
        mask language a ++ ['\'', ' ', '\''] ++ mask language b := by
      rw [h.mask_append, mask_literal hquote hback hline hsize]
      simp
    refine ⟨by simp [hmask, hsize], ?_⟩
    have hinert (before : Balance) : before.after ['\'', ' ', '\''] = before := by
      rw [← Balance.after_filter]
      rfl
    rw [Balance.of_eq_after, hmask, Balance.after_append, Balance.after_append, hinert]
    rfl
  · rw [h.mask_append, mask_wide hlanguage hsize]
    simp

/-- A brace between quotes in an argument. -/
theorem mask_charLiteral_brace : Visits .kotlin "f(".toList "'\x7b')".toList ∧
    mask .kotlin "f('\x7b')".toList = "f(' ')".toList ∧
      Balance.of .kotlin "f('\x7b')".toList = {} := by
  have hvisits : Visits .kotlin "f(".toList ('\'' :: '\x7b' :: '\'' :: ")".toList) :=
    ⟨[.plain 'f', .plain '('], [.quoted ['\''] ['\x7b'] ['\''], .plain ')'], by decide +kernel, rfl⟩
  obtain ⟨hmask, hbalance⟩ := (mask_charLiteral rfl (by decide) (by decide) (by decide) hvisits).1 rfl
  refine ⟨hvisits, hmask.trans (by decide +kernel), hbalance.trans (by decide +kernel)⟩

/-- The quote after a letter of two bytes makes a literal of the comma before the next one, and the
brace in that one counts. -/
theorem not_mask_charLiteral : ¬ ∀ (language : Language) (a b : List Char) (c : Char),
    language = .java ∨ language = .kotlin → c ≠ '\'' → c ≠ '\\' → c ≠ '\n' →
      Visits language a ('\'' :: c :: '\'' :: b) →
        mask language (a ++ '\'' :: c :: '\'' :: b) = mask language a ++ ['\''] ++
            List.replicate c.utf8Size ' ' ++ ['\''] ++ mask language b ∧
          Balance.of language (a ++ '\'' :: c :: '\'' :: b) =
            (Balance.of language a).after (mask language b) := by
  intro h
  have hvisits : Visits .java "f(".toList ('\'' :: 'é' :: '\'' :: ",'\x7b');".toList) :=
    ⟨[.plain 'f', .plain '('], [.plain '\'', .plain 'é', .quoted ['\''] [','] ['\''], .plain '\x7b',
      .plain '\'', .plain ')', .plain ';'], by decide +kernel, rfl⟩
  have hbalance := (h .java _ _ 'é' (.inl rfl) (by decide) (by decide) (by decide) hvisits).2
  revert hbalance
  decide +kernel

end

end Mend.Text.Mask
