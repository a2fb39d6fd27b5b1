import Mend.Text.Lines
import Mathlib.Data.List.Basic

/-!
# Laws of lines

Nothing is lost when a text is cut into lines with their terminators (`flatten_pieces`), and a text
that is written line by line is cut where it was written (`pieces_ended_append`, `pieces_lines`).
Only the last line can be without a line feed (`ended_of_pieces_append`), and a carriage return with
a line feed stands at the end of a line or nowhere (`crlf_infix_iff`).

The texts between the line feeds of `s` are the lines of `s` with one more line feed at its end
(`pieces_snoc`), and lines joined by line feeds are found again (`rows_intercalate`).
-/

namespace Mend.Text

/-! ## Nothing is lost -/

theorem flatten_pieces : ∀ s : List Char, (pieces s).flatten = s
  | [] => rfl
  | c :: s => by
    have ih := flatten_pieces s
    rw [pieces]
    split
    · rw [List.flatten_cons, ih, List.singleton_append]
    · cases h : pieces s with
      | nil => simp_all
      | cons p ps =>
        rw [h, List.flatten_cons] at ih
        simp only [List.flatten_cons, List.cons_append, ih]

theorem pieces_line_append {l : List Char} (h : '\n' ∉ l) (s : List Char) :
    pieces (l ++ '\n' :: s) = (l ++ ['\n']) :: pieces s := by
  induction l with
  | nil => simp [pieces]
  | cons c l ih =>
    have hc : c ≠ '\n' := fun e => h (e ▸ List.mem_cons_self)
    have hl : '\n' ∉ l := fun m => h (List.mem_cons_of_mem _ m)
    rw [List.cons_append, pieces, if_neg hc, ih hl]
    rfl

/-- A line with its line feed. -/
def Ended (p : List Char) : Prop :=
  ∃ l, '\n' ∉ l ∧ p = l ++ ['\n']

theorem pieces_ended_append {ps : List (List Char)} (h : ∀ p ∈ ps, Ended p) (s : List Char) :
    pieces (ps.flatten ++ s) = ps ++ pieces s := by
  induction ps with
  | nil => rfl
  | cons p ps ih =>
    obtain ⟨l, hl, rfl⟩ := h p List.mem_cons_self
    have hps : ∀ p ∈ ps, Ended p := fun q hq => h q (List.mem_cons_of_mem _ hq)
    rw [List.flatten_cons, List.append_assoc, List.append_assoc, List.singleton_append,
      pieces_line_append hl, ih hps]
    rfl

theorem pieces_lines {ls : List (List Char)} (h : ∀ l ∈ ls, '\n' ∉ l) (s : List Char) :
    pieces (ls.flatMap (· ++ ['\n']) ++ s) = ls.map (· ++ ['\n']) ++ pieces s := by
  have hended : ∀ p ∈ ls.map (· ++ ['\n']), Ended p := by
    intro p hp
    obtain ⟨l, hl, rfl⟩ := List.mem_map.mp hp
    exact ⟨l, h l hl, rfl⟩
  rw [List.flatMap_def, pieces_ended_append hended]

/-- Only the last line of a text can be without a line feed. -/
theorem ended_of_pieces_append : ∀ {s : List Char} {ps qs : List (List Char)},
    pieces s = ps ++ qs → qs ≠ [] → ∀ p ∈ ps, Ended p
  | [], ps, qs, h, hqs => by
    simp [pieces] at h
    exact absurd h.2 hqs
  | c :: s, [], qs, h, hqs => by simp
  | c :: s, p :: ps, qs, h, hqs => by
    rw [pieces] at h
    split at h
    · next hc =>
      obtain ⟨hp, htail⟩ := List.cons.inj h
      intro q hq
      rcases List.mem_cons.mp hq with rfl | hq
      · exact ⟨[], by simp, by rw [← hp, hc]; rfl⟩
      · exact ended_of_pieces_append htail hqs q hq
    · next hc =>
      cases hs : pieces s with
      | nil =>
        rw [hs] at h
        obtain ⟨-, htail⟩ := List.cons.inj h
        simp [hqs] at htail
      | cons q rest =>
        rw [hs] at h
        obtain ⟨hp, htail⟩ := List.cons.inj h
        have hq : pieces s = (q :: ps) ++ qs := by
          rw [hs, htail]
          rfl
        have ih := ended_of_pieces_append hq hqs
        intro p' hp'
        rcases List.mem_cons.mp hp' with rfl | hp'
        · obtain ⟨l, hl, rfl⟩ := ih q List.mem_cons_self
          exact ⟨c :: l, by simp [hl, Ne.symm hc], hp.symm⟩
        · exact ih p' (List.mem_cons_of_mem _ hp')

/-- A line of a text has its line feed at its end, or none and is not empty. -/
def IsPiece (p : List Char) : Prop :=
  Ended p ∨ ('\n' ∉ p ∧ p ≠ [])

theorem isPiece_cons {c : Char} (hc : c ≠ '\n') {p : List Char} (hp : IsPiece p) :
    IsPiece (c :: p) := by
  rcases hp with ⟨l, hl, rfl⟩ | ⟨hp, -⟩
  · exact Or.inl ⟨c :: l, by simp [hl, hc.symm], rfl⟩
  · exact Or.inr ⟨by simp [hp, hc.symm], List.cons_ne_nil _ _⟩

theorem isPiece_of_mem_pieces : ∀ {s p : List Char}, p ∈ pieces s → IsPiece p
  | [], p, h => by simp [pieces] at h
  | c :: s, p, h => by
    rw [pieces] at h
    split at h
    · next hc =>
      rcases List.mem_cons.mp h with rfl | h
      · exact Or.inl ⟨[], by simp, by rw [hc]; rfl⟩
      · exact isPiece_of_mem_pieces h
    · next hc =>
      cases hs : pieces s with
      | nil =>
        rw [hs, List.mem_singleton] at h
        exact Or.inr ⟨by simp [h, Ne.symm hc], by simp [h]⟩
      | cons q qs =>
        rw [hs] at h
        rcases List.mem_cons.mp h with rfl | h
        · exact isPiece_cons hc (isPiece_of_mem_pieces (s := s) (by simp [hs]))
        · exact isPiece_of_mem_pieces (s := s) (by simp [hs, h])

/-- What ends in no line feed is the last line of the text. -/
theorem eq_nil_of_not_ended {s p : List Char} {front back : List (List Char)}
    (h : pieces s = front ++ p :: back) (hp : '\n' ∉ p) : back = [] := by
  by_contra hne
  rw [← List.singleton_append, ← List.append_assoc] at h
  obtain ⟨l, -, rfl⟩ := ended_of_pieces_append h hne p (by simp)
  simp at hp

/-! ## Terminators -/

theorem stripTerminator_crlf (l : List Char) : stripTerminator (l ++ ['\r', '\n']) = l := by
  simp [stripTerminator]

theorem stripTerminator_lf {l : List Char} (h : l.getLast? ≠ some '\r') :
    stripTerminator (l ++ ['\n']) = l := by
  rw [← List.head?_reverse] at h
  rw [stripTerminator, List.reverse_append, List.reverse_singleton, List.singleton_append]
  split
  · next heq => simp_all
  · next heq => rw [← (List.cons.inj heq).2, List.reverse_reverse]
  · next hne => exact absurd rfl (hne _)

theorem stripTerminator_of_not_mem {l : List Char} (h : '\n' ∉ l) : stripTerminator l = l := by
  rw [stripTerminator]
  split
  · next heq => exact absurd (List.mem_reverse.mp (by rw [heq]; simp)) h
  · next heq => exact absurd (List.mem_reverse.mp (by rw [heq]; simp)) h
  · rfl

theorem not_mem_stripTerminator {p : List Char} (h : IsPiece p) :
    '\n' ∉ stripTerminator p := by
  rcases h with ⟨l, hl, rfl⟩ | ⟨hp, -⟩
  · by_cases hlast : l.getLast? = some '\r'
    · obtain ⟨front, rfl⟩ := List.getLast?_eq_some_iff.mp hlast
      rw [List.append_assoc, List.singleton_append, stripTerminator_crlf]
      exact fun hmem => hl (List.mem_append_left _ hmem)
    · rwa [stripTerminator_lf hlast]
  · rwa [stripTerminator_of_not_mem hp]

/-- A line that ends in a carriage return once its terminator is off has another one in the
terminator. -/
theorem crlf_suffix_of_stripTerminator {p : List Char} (h : Ended p)
    (hlast : (stripTerminator p).getLast? = some '\r') : ['\r', '\n'] <:+ p := by
  obtain ⟨l, -, rfl⟩ := h
  by_cases hl : l.getLast? = some '\r'
  · obtain ⟨front, rfl⟩ := List.getLast?_eq_some_iff.mp hl
    exact ⟨front, by simp⟩
  · rw [stripTerminator_lf hl] at hlast
    exact absurd hlast hl

theorem occurs_iff_infix {needle : List Char} : ∀ {s : List Char},
    occurs needle s = true ↔ needle <:+: s
  | [] => by rw [occurs, List.isEmpty_iff, List.infix_nil]
  | c :: s => by
    rw [occurs, Bool.or_eq_true, List.isPrefixOf_iff_prefix, occurs_iff_infix, List.infix_cons_iff]

theorem has_crlf_iff {s : List Char} : has s "\r\n" = true ↔ ['\r', '\n'] <:+: s :=
  occurs_iff_infix

theorem lineEnding_of_crlf {s : List Char} (h : ['\r', '\n'] <:+: s) : lineEnding s = "\r\n" :=
  if_pos (has_crlf_iff.mpr h)

theorem lineEnding_of_not_crlf {s : List Char} (h : ¬ ['\r', '\n'] <:+: s) :
    lineEnding s = "\n" :=
  if_neg fun hs => h (has_crlf_iff.mp hs)

/-- The pair of carriage return and line feed stands at the end of a line or nowhere. -/
theorem crlf_infix_iff : ∀ {s : List Char},
    ['\r', '\n'] <:+: s ↔ ∃ p ∈ pieces s, ['\r', '\n'] <:+ p
  | [] => by simp [pieces]
  | c :: s => by
    rw [List.infix_cons_iff, crlf_infix_iff (s := s), pieces]
    split
    · next hc =>
      subst hc
      simp [List.suffix_cons_iff]
    · next hc =>
      have hflat := flatten_pieces s
      cases hs : pieces s with
      | nil =>
        rw [hs] at hflat
        simp [← hflat, List.suffix_cons_iff]
      | cons q qs =>
        have hstart : ['\r', '\n'] <+: c :: s ↔ ['\r', '\n'] = c :: q := by
          rw [List.cons_prefix_cons, List.cons.injEq]
          refine and_congr_right fun _ => ⟨?_, ?_⟩
          · rintro ⟨t, rfl⟩
            rw [List.singleton_append, pieces, if_pos rfl] at hs
            exact (List.cons.inj hs).1
          · rintro rfl
            rw [hs] at hflat
            exact ⟨qs.flatten, hflat⟩
        simp only [List.mem_cons, exists_eq_or_imp, List.suffix_cons_iff, hstart, or_assoc]

theorem rows_ne_nil : ∀ s : List Char, rows s ≠ []
  | [] => List.cons_ne_nil _ _
  | c :: s => by
    rw [rows]
    split
    · exact List.cons_ne_nil _ _
    · split <;> exact List.cons_ne_nil _ _

theorem not_mem_of_mem_rows : ∀ {s l : List Char}, l ∈ rows s → '\n' ∉ l
  | [], l, h => by
    rw [rows, List.mem_singleton] at h
    simp [h]
  | c :: s, l, h => by
    rw [rows] at h
    split at h
    · rcases List.mem_cons.mp h with rfl | h
      · simp
      · exact not_mem_of_mem_rows h
    · next hc =>
      cases hs : rows s with
      | nil => exact absurd hs (rows_ne_nil s)
      | cons q qs =>
        rw [hs] at h
        have hq : '\n' ∉ q := not_mem_of_mem_rows (s := s) (by simp [hs])
        rcases List.mem_cons.mp h with rfl | h
        · simp [hq, Ne.symm hc]
        · exact not_mem_of_mem_rows (s := s) (by simp [hs, h])

/-- A text with one more line feed at its end has the texts between the line feeds as lines. -/
theorem pieces_snoc : ∀ s : List Char, pieces (s ++ ['\n']) = (rows s).map (· ++ ['\n'])
  | [] => rfl
  | c :: s => by
    have ih := pieces_snoc s
    rw [List.cons_append, pieces, rows, ih]
    split
    · next hc => rw [hc]; rfl
    · cases hs : rows s with
      | nil => exact absurd hs (rows_ne_nil s)
      | cons q qs => rfl

/-- There is one row more than there are line feeds. -/
theorem length_rows : ∀ s : List Char, (rows s).length = s.count '\n' + 1
  | [] => rfl
  | c :: s => by
    have ih := length_rows s
    obtain ⟨r, rs, hs⟩ := List.exists_cons_of_ne_nil (rows_ne_nil s)
    rw [hs] at ih
    rw [rows, hs, List.count_cons]
    split
    · next hc => rw [List.length_cons, ih, hc]; rfl
    · next hc => rw [List.length_cons, ← List.length_cons (a := r), ih, if_neg (by simpa using hc)]

/-- A line feed parts the rows before it from those after it. -/
theorem rows_append_newline (s t : List Char) : rows (s ++ '\n' :: t) = rows s ++ rows t := by
  induction s with
  | nil => simp [rows]
  | cons c s ih =>
    rw [List.cons_append, rows, rows.eq_def (c :: s), ih]
    obtain ⟨r, rs, hs⟩ := List.exists_cons_of_ne_nil (rows_ne_nil s)
    simp only [hs]
    split <;> rfl

theorem rows_of_not_mem {l : List Char} (h : '\n' ∉ l) : rows l = [l] := by
  induction l with
  | nil => rfl
  | cons c l ih =>
    have hc : c ≠ '\n' := fun e => h (e ▸ List.mem_cons_self)
    have hl : '\n' ∉ l := fun m => h (List.mem_cons_of_mem _ m)
    rw [rows, if_neg hc, ih hl]

/-- Lines joined by line feeds are found again. -/
theorem rows_intercalate :
    ∀ {ls : List (List Char)}, ls ≠ [] → (∀ l ∈ ls, '\n' ∉ l) →
      rows (List.intercalate ['\n'] ls) = ls
  | [], h, _ => absurd rfl h
  | [l], _, h => by
    have hl : '\n' ∉ l := h l List.mem_cons_self
    rw [List.intercalate, List.intersperse_singleton, List.flatten_singleton, rows_of_not_mem hl]
  | l :: m :: ls, _, h => by
    have hl : '\n' ∉ l := h l List.mem_cons_self
    have ih := rows_intercalate (List.cons_ne_nil m ls) fun k hk => h k (List.mem_cons_of_mem _ hk)
    rw [List.intercalate, List.intersperse_cons_cons, List.flatten_cons, List.flatten_cons,
      List.singleton_append, rows_append_newline, rows_of_not_mem hl]
    exact congrArg (l :: ·) ih

end Mend.Text
