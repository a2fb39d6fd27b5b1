import Mend.Proofs.Text.Good

/-!
# Positions after whole lines

The line and the column of an offset are told by the text before it: so many lines end there, and so
many bytes stand in the last one (`LineIndex.lineOf_lines`, `LineIndex.columnOf_lines`). Two texts
that start alike give an offset in their common part one position.
-/

namespace Mend.Text.LineIndex

theorem lt_of_mem_offsetsOf_go {p : Char → Bool} {s : List Char} {pos o : Nat}
    (h : o ∈ offsetsOf.go p pos s) : o < pos + width s := by
  obtain ⟨front, c, back, rfl, rfl, -⟩ := exists_of_mem_offsetsOf_go h
  have hc := c.utf8Size_pos
  rw [width_append, width]
  omega

/-- The line feeds before an offset are those of the text before it. -/
theorem lineOf_width (s t : List Char) : (of (s ++ t)).lineOf (width s) = (rows s).length := by
  have hbefore : (offsetsOf.go (· == '\n') 0 s).countP (· < width s) =
      (offsetsOf.go (· == '\n') 0 s).length := by
    rw [List.countP_eq_length]
    intro o ho
    have := lt_of_mem_offsetsOf_go ho
    simp only [decide_eq_true_eq]
    omega
  have hafter : (offsetsOf.go (· == '\n') (0 + width s) t).countP (· < width s) = 0 := by
    rw [List.countP_eq_zero]
    intro o ho
    have := le_of_mem_offsetsOf_go ho
    simp only [decide_eq_true_eq]
    omega
  rw [lineOf, of, offsetsOf, offsetsOf_go_append, List.countP_append, hbefore, hafter, Nat.add_zero,
    length_newlines]

theorem offsetsOf_go_of_not_mem {l : List Char} (h : '\n' ∉ l) (pos : Nat) :
    offsetsOf.go (· == '\n') pos l = [] := by
  rw [List.eq_nil_iff_forall_not_mem]
  intro o ho
  obtain ⟨front, c, back, rfl, -, hc⟩ := exists_of_mem_offsetsOf_go ho
  exact h (by simp [beq_iff_eq.mp hc])

/-- After whole lines the next one starts. -/
theorem rowStart_lines (t : List Char) : ∀ {ps : List (List Char)}, (∀ p ∈ ps, Ended p) →
    ∀ pos : Nat, rowStart pos (offsetsOf.go (· == '\n') pos (ps.flatten ++ t)) ps.length =
      pos + width ps.flatten
  | [], _, _ => rfl
  | p :: ps, h, pos => by
    obtain ⟨l, hl, rfl⟩ := h p List.mem_cons_self
    have ih := rowStart_lines t (fun q hq => h q (List.mem_cons_of_mem _ hq)) (pos + width l + 1)
    have hsplit : ((l ++ ['\n']) :: ps).flatten ++ t = l ++ '\n' :: (ps.flatten ++ t) := by simp
    have hwidth : width ((l ++ ['\n']) :: ps).flatten = width l + 1 + width ps.flatten := by
      rw [List.flatten_cons, width_append, width_append]
      rfl
    rw [hsplit, offsetsOf_go_append, offsetsOf_go_of_not_mem hl, List.nil_append, offsetsOf.go,
      if_pos (by simp), hwidth, List.length_cons, show '\n'.utf8Size = 1 from rfl,
      ← Nat.add_assoc, ← Nat.add_assoc, ← ih]
    cases ps <;> rfl

variable {ps : List (List Char)} {l : List Char}

theorem length_rows_lines (h : ∀ p ∈ ps, Ended p) (hl : '\n' ∉ l) :
    (rows (ps.flatten ++ l)).length = ps.length + 1 := by
  have hpieces := congrArg List.length (pieces_snoc (ps.flatten ++ l))
  rw [List.append_assoc, pieces_ended_append h, pieces_line_append hl, List.length_append,
    List.length_map] at hpieces
  exact hpieces.symm

/-- Where so many lines are before an offset, its line comes after them. -/
theorem lineOf_lines (h : ∀ p ∈ ps, Ended p) (hl : '\n' ∉ l) (t : List Char) :
    (of (ps.flatten ++ l ++ t)).lineOf (width (ps.flatten ++ l)) = ps.length + 1 := by
  rw [lineOf_width, length_rows_lines h hl]

/-- The column of an offset counts the bytes of its line before it. -/
theorem columnOf_lines (h : ∀ p ∈ ps, Ended p) (hl : '\n' ∉ l) (t : List Char) :
    (of (ps.flatten ++ l ++ t)).columnOf (width (ps.flatten ++ l)) = width l + 1 := by
  have hle : ps.length ≤ (of (ps.flatten ++ l ++ t)).newlines.length := by
    have hlength := length_newlines (ps.flatten ++ l) 0
    rw [length_rows_lines h hl] at hlength
    show _ ≤ (offsetsOf.go (· == '\n') 0 (ps.flatten ++ l ++ t)).length
    rw [offsetsOf_go_append, List.length_append]
    omega
  have hstart := rowStart_lines (l ++ t) h 0
  rw [← List.append_assoc] at hstart
  rw [columnOf, lineOf_lines h hl, lineStart_succ hle]
  show width (ps.flatten ++ l) - rowStart 0 (offsetsOf.go (· == '\n') 0 (ps.flatten ++ l ++ t)) _ + 1 = _
  rw [hstart, width_append]
  omega

/-- The line after whole lines starts where they end. -/
theorem lineStart_lines (h : ∀ p ∈ ps, Ended p) (t : List Char) :
    (of (ps.flatten ++ t)).lineStart (ps.length + 1) = width ps.flatten := by
  have hline := lineOf_lines h List.not_mem_nil t
  have hcolumn := columnOf_lines h List.not_mem_nil t
  have hstart := lineStart_add_columnOf (ps.flatten ++ t) (width ps.flatten)
  rw [List.append_nil] at hline hcolumn
  rw [hline, hcolumn, width, Nat.zero_add] at hstart
  exact Nat.succ.inj hstart

/-! ## Offsets of one line -/

variable {start front rest back : List Char}

/-- An offset in the line that starts after a part of the text. -/
theorem exists_of_lineOf (h : front ++ back = start ++ rest)
    (hstart : (of (start ++ rest)).columnOf (width start) = 1)
    (hline : (of (start ++ rest)).lineOf (width front) = (of (start ++ rest)).lineOf (width start)) :
    ∃ p, front = start ++ p ∧ '\n' ∉ p ∧
      (of (start ++ rest)).columnOf (width front) = width p + 1 := by
  have hbegin := lineStart_add_columnOf (start ++ rest) (width start)
  have hfront := lineStart_add_columnOf (start ++ rest) (width front)
  have hle := lineStart_lineOf_le (start ++ rest) (width front)
  rw [hline] at hfront hle
  obtain ⟨p, rfl, -⟩ := exists_append_of_width h.symm (by omega)
  have hwidth := width_append start p
  refine ⟨p, rfl, List.count_eq_zero.mp ?_, by omega⟩
  rw [lineOf_width start rest, ← h, lineOf_width, length_rows, length_rows, List.count_append] at hline
  omega

/-- A part of a line does not lead out of it. -/
theorem lineOf_append {p : List Char} (h : '\n' ∉ p) (t : List Char) :
    (of (start ++ p ++ t)).lineOf (width (start ++ p)) =
      (of (start ++ p ++ t)).lineOf (width start) := by
  rw [lineOf_width, List.append_assoc, lineOf_width, length_rows, length_rows, List.count_append,
    List.count_eq_zero.mpr h, Nat.add_zero]

theorem columnOf_append {p : List Char} (h : '\n' ∉ p) (t : List Char) :
    (of (start ++ p ++ t)).columnOf (width (start ++ p)) =
      (of (start ++ p ++ t)).columnOf (width start) + width p := by
  have hstart := lineStart_add_columnOf (start ++ p ++ t) (width start)
  have hend := lineStart_add_columnOf (start ++ p ++ t) (width (start ++ p))
  have hwidth := width_append start p
  rw [lineOf_append h] at hend
  omega

/-! ## Offsets of a row -/

theorem lt_countP_of_getElem? {bound n : Nat} : ∀ {l : List Nat} {j : Nat}, l.Pairwise (· < ·) →
    l[j]? = some n → n < bound → j < l.countP (· < bound)
  | [], _, _, h, _ => by simp at h
  | a :: l, 0, _, h, hn => by
    obtain rfl : a = n := by simpa using h
    rw [List.countP_cons_of_pos (by simpa using hn)]
    exact Nat.succ_pos _
  | a :: l, j + 1, hl, h, hn => by
    obtain ⟨ha, hl⟩ := List.pairwise_cons.mp hl
    have hmem : l[j]? = some n := by simpa using h
    have hlt := ha n (List.mem_of_getElem? hmem)
    rw [List.countP_cons_of_pos (by simpa using hlt.trans hn)]
    exact Nat.succ_lt_succ (lt_countP_of_getElem? hl hmem hn)

/-- An offset in a row, or at its end, is on the line of the row. -/
theorem lineOf_lineStart_add {s row : List Char} {i k : Nat}
    (hrow : (rows s)[i]? = some row) (hk : k ≤ width row) :
    (of s).lineOf ((of s).lineStart (i + 1) + k) = i + 1 := by
  have hsorted : (of s).newlines.Pairwise (· < ·) := pairwise_offsetsOf (· == '\n') s
  obtain ⟨front, back, -, hstart, hend⟩ := exists_of_row hrow
  refine congrArg (· + 1) (Nat.le_antisymm ?_ ?_)
  · by_contra hlt
    obtain ⟨n, hn, hbefore⟩ := exists_getElem?_lt _ hsorted (Nat.lt_of_not_le hlt)
    rw [hend, Option.ite_none_left_eq_some, Option.some.injEq] at hn
    omega
  · cases i with
    | zero => exact Nat.zero_le _
    | succ j =>
      have hlength : (of s).newlines.length + 1 = (rows s).length := length_newlines s 0
      have hj : j < (of s).newlines.length := by
        have := (List.getElem?_eq_some_iff.mp hrow).1
        omega
      refine lt_countP_of_getElem? hsorted (List.getElem?_eq_getElem hj) ?_
      rw [lineStart_succ hj, rowStart, List.getElem?_eq_getElem hj, Option.getD_some]
      omega

end Mend.Text.LineIndex
