import Mend.Proofs.Text.Lines
import Mend.Synthesis.Window
import Mathlib.Data.List.Forall2

/-!
# Carriage returns before line feeds

A text has the pair of carriage return and line feed where two of its parts meet or inside one of
them (`crlf_infix_append`, `crlf_infix_joined`). Characters that are put into a text and end no line
make no such pair and no new line (`Grown`).
-/

namespace Mend.Text

theorem crlf_prefix_cons {c : Char} {s : List Char} :
    ['\r', '\n'] <+: c :: s ↔ c = '\r' ∧ s.head? = some '\n' := by
  rw [List.cons_prefix_cons, @eq_comm _ '\r']
  cases s with
  | nil => simp
  | cons d s => simp [@eq_comm _ '\n']

/-- A pair of carriage return and line feed stands in one of two texts or where they meet. -/
theorem crlf_infix_append {s t : List Char} :
    ['\r', '\n'] <:+: s ++ t ↔ ['\r', '\n'] <:+: s ∨ ['\r', '\n'] <:+: t ∨
      (s.getLast? = some '\r' ∧ t.head? = some '\n') := by
  induction s with
  | nil => simp
  | cons c s ih =>
    rw [List.cons_append, List.infix_cons_iff, ih, List.infix_cons_iff, crlf_prefix_cons,
      crlf_prefix_cons]
    cases s with
    | nil =>
      simp
      tauto
    | cons d s =>
      rw [List.getLast?_cons_cons, List.cons_append, List.head?_cons, List.head?_cons]
      tauto

theorem no_crlf_of_not_mem {s : List Char} (h : '\n' ∉ s) : ¬ ['\r', '\n'] <:+: s :=
  fun hs => h (hs.subset (by simp))

theorem crlf_infix_of_append_left {s t : List Char} (ht : '\n' ∉ t)
    (h : ['\r', '\n'] <:+: s ++ t) : ['\r', '\n'] <:+: s := by
  rcases crlf_infix_append.mp h with h | h | ⟨-, h⟩
  · exact h
  · exact absurd h (no_crlf_of_not_mem ht)
  · exact absurd (List.mem_of_mem_head? h) ht

theorem crlf_infix_of_append_right {s t : List Char} (hs : '\r' ∉ s)
    (h : ['\r', '\n'] <:+: s ++ t) : ['\r', '\n'] <:+: t := by
  rcases crlf_infix_append.mp h with h | h | ⟨h, -⟩
  · exact absurd (h.subset List.mem_cons_self) hs
  · exact h
  · exact absurd (List.mem_of_getLast? h) hs

/-! ## Joined lines -/

theorem joined_singleton (l : List Char) : Window.joined [l] = l := by
  simp [Window.joined, List.intercalate]

theorem joined_cons_cons (l m : List Char) (ls : List (List Char)) :
    Window.joined (l :: m :: ls) = l ++ '\n' :: Window.joined (m :: ls) := by
  simp [Window.joined, List.intercalate]

/-- The rows of a text joined again. -/
theorem joined_rows : ∀ s : List Char, Window.joined (rows s) = s
  | [] => rfl
  | c :: s => by
    have ih := joined_rows s
    obtain ⟨r, rs, hs⟩ := List.exists_cons_of_ne_nil (rows_ne_nil s)
    rw [hs] at ih
    rw [rows, hs]
    split
    · next hc =>
      rw [joined_cons_cons, ih, hc]
      rfl
    · cases rs with
      | nil =>
        rw [joined_singleton] at ih ⊢
        rw [ih]
      | cons q qs =>
        rw [joined_cons_cons] at ih ⊢
        rw [List.cons_append, ih]

/-- The rows of a text up to the one that a place is in reach to the end of this one. -/
theorem joined_take_rows (s t : List Char) :
    Window.joined ((rows (s ++ t)).take (rows s).length) = s ++ t.takeWhile (· ≠ '\n') := by
  have hplain : '\n' ∉ t.takeWhile (· ≠ '\n') := fun hmem => by
    simpa using List.all_eq_true.mp List.all_takeWhile _ hmem
  have hrows : (rows s).length = (rows (s ++ t.takeWhile (· ≠ '\n'))).length := by
    rw [length_rows, length_rows, List.count_append, List.count_eq_zero_of_not_mem hplain,
      Nat.add_zero]
  have hsplit : s ++ t = s ++ t.takeWhile (· ≠ '\n') ++ t.dropWhile (· ≠ '\n') := by
    rw [List.append_assoc, List.takeWhile_append_dropWhile]
  cases hrest : t.dropWhile (· ≠ '\n') with
  | nil =>
    rw [hsplit, hrest, List.append_nil, hrows, List.take_length, joined_rows]
  | cons c u =>
    have hc : c = '\n' := by
      have h := List.head?_dropWhile_not (· ≠ '\n') t
      rw [hrest] at h
      simpa using h
    rw [hsplit, hrest, hc, rows_append_newline, hrows, List.take_left, joined_rows]

/-- In joined lines the pair stands inside a line or at the end of one that is not the last. -/
theorem crlf_infix_joined : ∀ {ls : List (List Char)},
    ['\r', '\n'] <:+: Window.joined ls ↔ (∃ l ∈ ls, ['\r', '\n'] <:+: l) ∨
      ∃ l ∈ ls.dropLast, l.getLast? = some '\r'
  | [] => by simp [Window.joined]
  | [l] => by simp [joined_singleton]
  | l :: m :: ls => by
    have ih := @crlf_infix_joined (m :: ls)
    rw [joined_cons_cons, crlf_infix_append, List.infix_cons_iff, crlf_prefix_cons, ih,
      List.head?_cons, List.dropLast_cons_of_ne_nil (List.cons_ne_nil _ _)]
    simp only [List.mem_cons, exists_eq_or_imp, and_true, Char.reduceEq, false_and, false_or,
      or_assoc]
    exact or_congr_right (or_congr_right (or_congr_right or_comm))

/-- Joined lines end as the last of them does, unless it is empty. -/
theorem getLast?_joined_concat {c : Char} (hc : c ≠ '\n') (l : List Char) :
    ∀ ls : List (List Char),
      (Window.joined (ls ++ [l])).getLast? = some c ↔ l.getLast? = some c
  | [] => by rw [List.nil_append, joined_singleton]
  | [k] => by
    rw [List.singleton_append, joined_cons_cons, joined_singleton]
    cases l <;> simp [hc.symm]
  | k :: m :: ls => by
    have ih := getLast?_joined_concat hc l (m :: ls)
    rw [List.cons_append, List.cons_append, joined_cons_cons, ← ih, ← List.cons_append]
    cases Window.joined (m :: ls ++ [l]) <;> simp [hc.symm]

theorem length_le_rows_joined : ∀ ls : List (List Char),
    ls.length ≤ (rows (Window.joined ls)).length
  | [] => Nat.zero_le _
  | [l] => by
    rw [joined_singleton]
    exact List.length_pos_iff.mpr (rows_ne_nil l)
  | l :: m :: ls => by
    have ih := length_le_rows_joined (m :: ls)
    have hl := List.length_pos_iff.mpr (rows_ne_nil l)
    rw [joined_cons_cons, rows_append_newline, List.length_append, List.length_cons]
    omega

/-! ## Texts with something put in -/

/-- The second text is the first with characters put in that end no line. -/
inductive Grown : List Char → List Char → Prop
  | nil : Grown [] []
  | keep (c : Char) {s t : List Char} : Grown s t → Grown (c :: s) (c :: t)
  | add {c : Char} {s t : List Char} : c ≠ '\r' → c ≠ '\n' → Grown s t → Grown s (c :: t)

namespace Grown

theorem refl : ∀ s : List Char, Grown s s
  | [] => nil
  | c :: s => keep c (refl s)

theorem append {s t s' t' : List Char} (h : Grown s t) (h' : Grown s' t') :
    Grown (s ++ s') (t ++ t') := by
  induction h with
  | nil => exact h'
  | keep c _ ih => exact keep c ih
  | add hr hn _ ih => exact add hr hn ih

theorem insert {u : List Char} (hr : '\r' ∉ u) (hn : '\n' ∉ u) {s t : List Char}
    (h : Grown s t) : Grown s (u ++ t) := by
  induction u with
  | nil => exact h
  | cons c u ih =>
    simp only [List.mem_cons, not_or] at hr hn
    exact add (Ne.symm hr.1) (Ne.symm hn.1) (ih hr.2 hn.2)

theorem mem_newline {s t : List Char} (h : Grown s t) (ht : '\n' ∈ t) : '\n' ∈ s := by
  induction h with
  | nil => exact ht
  | keep c _ ih =>
    rcases List.mem_cons.mp ht with rfl | ht
    · exact List.mem_cons_self
    · exact List.mem_cons_of_mem c (ih ht)
  | add _ hn _ ih => exact ih ((List.mem_cons.mp ht).resolve_left (Ne.symm hn))

theorem head?_of_newline {s t : List Char} (h : Grown s t) (ht : t.head? = some '\n') :
    s.head? = some '\n' := by
  cases h with
  | nil => exact ht
  | keep c _ => exact ht
  | add _ hn _ => exact absurd (Option.some.inj ht) hn

/-- A text ends in a carriage return only if it did before. -/
theorem getLast?_return {s t : List Char} (h : Grown s t) (ht : t.getLast? = some '\r') :
    s.getLast? = some '\r' := by
  induction h with
  | nil => exact ht
  | @keep c s t h ih =>
    cases t with
    | nil =>
      cases h
      exact ht
    | cons d t =>
      rw [List.getLast?_cons_cons] at ht
      have hs := ih ht
      rw [List.getLast?_cons, hs]
      rfl
  | @add c s t hr _ h ih =>
    cases t with
    | nil => exact absurd (Option.some.inj ht) hr
    | cons d t =>
      rw [List.getLast?_cons_cons] at ht
      exact ih ht

theorem crlf_kept {s t : List Char} (h : Grown s t) (ht : ['\r', '\n'] <:+: t) :
    ['\r', '\n'] <:+: s := by
  induction h with
  | nil => exact ht
  | keep c h ih =>
    rw [List.infix_cons_iff, crlf_prefix_cons] at ht ⊢
    exact ht.imp (And.imp_right h.head?_of_newline) ih
  | add hr _ _ ih =>
    rw [List.infix_cons_iff, crlf_prefix_cons] at ht
    exact ih (ht.resolve_left fun hc => hr hc.1)

/-- What is put in stays in its line. -/
theorem rows {s t : List Char} (h : Grown s t) : List.Forall₂ Grown (rows s) (rows t) := by
  induction h with
  | nil => exact .cons nil .nil
  | @keep c s t _ ih =>
    obtain ⟨r, rs, hs⟩ := List.exists_cons_of_ne_nil (rows_ne_nil s)
    obtain ⟨q, qs, ht⟩ := List.exists_cons_of_ne_nil (rows_ne_nil t)
    rw [Text.rows, Text.rows]
    split
    · exact .cons nil ih
    · rw [hs, ht] at ih ⊢
      obtain ⟨hr, hrs⟩ := List.forall₂_cons.mp ih
      exact .cons (keep c hr) hrs
  | @add c s t hr hn _ ih =>
    obtain ⟨r, rs, hs⟩ := List.exists_cons_of_ne_nil (rows_ne_nil s)
    obtain ⟨q, qs, ht⟩ := List.exists_cons_of_ne_nil (rows_ne_nil t)
    rw [hs, ht] at ih
    obtain ⟨hq, hqs⟩ := List.forall₂_cons.mp ih
    rw [hs, Text.rows, if_neg hn, ht]
    exact .cons (add hr hn hq) hqs

theorem joined {olds news : List (List Char)} (h : List.Forall₂ Grown olds news) :
    Grown (Window.joined olds) (Window.joined news) := by
  induction h with
  | nil => exact nil
  | cons hline hlines ih =>
    cases hlines with
    | nil =>
      rw [joined_singleton, joined_singleton]
      exact hline
    | cons _ _ =>
      rw [joined_cons_cons, joined_cons_cons]
      exact hline.append (keep '\n' ih)

end Grown

end Mend.Text
