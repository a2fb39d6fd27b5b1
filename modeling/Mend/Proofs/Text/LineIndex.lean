import Mend.Proofs.Text.Mask
import Mend.Proofs.Text.Offset
import Mend.Text.LineIndex

/-!
# Offsets and positions

The offsets of a text at which a character stands are found in order (`pairwise_offsetsOf`). So the
line of an offset starts at the offset or before it (`lineStart_lineOf_le`), and no two offsets have
one line and one column (`eq_of_position`). The offsets of a line cut its row out of the text
(`cut_lineRange`), and an offset in one row is less than an offset in a later one
(`lineStart_add_lt`).

The mask hides no line feed and keeps every width (`Mask.aligned_mask`): a text and its mask have one
index (`Mask.of_mask`).
-/

namespace Mend.Text

/-! ## Offsets of characters -/

section

variable {p : Char → Bool}

theorem offsetsOf_go_append (p : Char → Bool) : ∀ (pos : Nat) (s t : List Char),
    offsetsOf.go p pos (s ++ t) = offsetsOf.go p pos s ++ offsetsOf.go p (pos + width s) t
  | pos, [], t => by simp [offsetsOf.go, width]
  | pos, c :: s, t => by
    rw [List.cons_append, offsetsOf.go, offsetsOf.go, offsetsOf_go_append p _ s t, width,
      Nat.add_assoc]
    split <;> rfl

theorem le_of_mem_offsetsOf_go : ∀ {s : List Char} {pos o : Nat}, o ∈ offsetsOf.go p pos s → pos ≤ o
  | [], _, _, h => by simp [offsetsOf.go] at h
  | c :: s, pos, o, h => by
    have hrest : o ∈ offsetsOf.go p (pos + c.utf8Size) s → pos ≤ o :=
      fun h => Nat.le_trans (Nat.le_add_right _ _) (le_of_mem_offsetsOf_go h)
    rw [offsetsOf.go] at h
    split at h
    · rcases List.mem_cons.mp h with rfl | h
      · exact Nat.le_refl _
      · exact hrest h
    · exact hrest h

theorem pairwise_offsetsOf_go : ∀ (s : List Char) (pos : Nat),
    (offsetsOf.go p pos s).Pairwise (· < ·)
  | [], _ => List.Pairwise.nil
  | c :: s, pos => by
    have hrest := pairwise_offsetsOf_go s (pos + c.utf8Size)
    rw [offsetsOf.go]
    split
    · refine List.pairwise_cons.mpr ⟨fun o ho => ?_, hrest⟩
      have hle := le_of_mem_offsetsOf_go ho
      have hc := c.utf8Size_pos
      omega
    · exact hrest

theorem pairwise_offsetsOf (p : Char → Bool) (s : List Char) :
    (offsetsOf p s).Pairwise (· < ·) :=
  pairwise_offsetsOf_go s 0

end

/-! ## Positions -/

/-- In a list in order, the numbers below a bound come first. -/
theorem exists_getElem?_lt (bound : Nat) : ∀ {l : List Nat} {k : Nat}, l.Pairwise (· < ·) →
    k < l.countP (· < bound) → ∃ n, l[k]? = some n ∧ n < bound
  | [], k, _, h => by simp at h
  | a :: l, k, hl, h => by
    obtain ⟨ha, hl⟩ := List.pairwise_cons.mp hl
    by_cases hbound : a < bound
    · cases k with
      | zero => exact ⟨a, rfl, hbound⟩
      | succ k =>
        rw [List.countP_cons_of_pos (by simpa using hbound)] at h
        simpa using exists_getElem?_lt bound hl (Nat.lt_of_succ_lt_succ h)
    · have hnone : l.countP (· < bound) = 0 := by
        rw [List.countP_eq_zero]
        intro b hb
        have := ha b hb
        simp
        omega
      rw [List.countP_cons_of_neg (by simpa using hbound), hnone] at h
      omega

namespace LineIndex

theorem lineStart_lineOf_le (s : List Char) (offset : Nat) :
    (of s).lineStart ((of s).lineOf offset) ≤ offset := by
  rw [lineStart, lineOf]
  split
  · exact Nat.zero_le _
  · next hline =>
    obtain ⟨n, hn, hlt⟩ := exists_getElem?_lt offset
      (k := (of s).newlines.countP (· < offset) + 1 - 2) (pairwise_offsetsOf (· == '\n') s)
      (show _ < (of s).newlines.countP (· < offset) by omega)
    rw [show (of s).newlines[(of s).newlines.countP (· < offset) + 1 - 2]? = some n from hn]
    exact hlt

/-- An offset is known from its line and its column. -/
theorem lineStart_add_columnOf (s : List Char) (offset : Nat) :
    (of s).lineStart ((of s).lineOf offset) + (of s).columnOf offset = offset + 1 := by
  have hle := lineStart_lineOf_le s offset
  rw [columnOf]
  omega

theorem eq_of_position {s : List Char} {o o' : Nat} (hline : (of s).lineOf o = (of s).lineOf o')
    (hcolumn : (of s).columnOf o = (of s).columnOf o') : o = o' := by
  have h := lineStart_add_columnOf s o
  rw [hline, hcolumn, lineStart_add_columnOf s o'] at h
  omega

/-! ## Rows -/

/-- Where a row starts, given the line feeds of a text that starts at `pos`. -/
def rowStart (pos : Nat) (newlines : List Nat) : Nat → Nat
  | 0 => pos
  | i + 1 => newlines[i]?.getD 0 + 1

/-- A row stands where the line feed before it says, and ends where the one after it stands or at
the end of the text. -/
theorem row_split : ∀ {s : List Char} (pos : Nat) {i : Nat} {row : List Char},
    (rows s)[i]? = some row →
    ∃ front back, s = front ++ row ++ back ∧
      rowStart pos (offsetsOf.go (· == '\n') pos s) i = pos + width front ∧
      (offsetsOf.go (· == '\n') pos s)[i]? =
        if back.isEmpty then none else some (pos + width front + width row)
  | [], pos, i, row, h => by
    obtain ⟨hi, rfl⟩ := List.getElem?_eq_some_iff.mp h
    obtain rfl : i = 0 := by simpa [rows] using hi
    exact ⟨[], [], rfl, rfl, rfl⟩
  | c :: s, pos, i, row, h => by
    rw [rows] at h
    rw [offsetsOf.go]
    by_cases hc : c = '\n'
    · subst hc
      simp only [beq_self_eq_true, if_true] at h ⊢
      cases i with
      | zero =>
        obtain rfl : [] = row := by simpa using h
        exact ⟨[], '\n' :: s, rfl, rfl, rfl⟩
      | succ i =>
        obtain ⟨front, back, rfl, hstart, hend⟩ :=
          row_split (pos + 1) (show (rows s)[i]? = some row by simpa using h)
        refine ⟨'\n' :: front, back, rfl, ?_, ?_⟩
        · rw [width, show '\n'.utf8Size = 1 from rfl, ← Nat.add_assoc, ← hstart]
          cases i <;> rfl
        · rw [width, show '\n'.utf8Size = 1 from rfl, ← Nat.add_assoc, ← hend]
          rfl
    · obtain ⟨first, rest, hrows⟩ := List.exists_cons_of_ne_nil (rows_ne_nil s)
      simp only [beq_eq_false_iff_ne.mpr hc, Bool.false_eq_true, if_false, if_neg hc, hrows] at h ⊢
      cases i with
      | zero =>
        obtain rfl : c :: first = row := by simpa using h
        obtain ⟨front, back, hs, hstart, hend⟩ :=
          row_split (pos + c.utf8Size) (show (rows s)[0]? = some first by rw [hrows]; rfl)
        obtain rfl : front = [] := by
          rw [rowStart] at hstart
          cases front with
          | nil => rfl
          | cons d front =>
            have hd := d.utf8Size_pos
            rw [width] at hstart
            omega
        refine ⟨[], back, by rw [hs]; rfl, rfl, ?_⟩
        rw [hend, width.eq_1, width.eq_2]
        simp only [Nat.add_zero, Nat.add_assoc]
      | succ i =>
        obtain ⟨front, back, hs, hstart, hend⟩ :=
          row_split (pos + c.utf8Size) (show (rows s)[i + 1]? = some row by
            rw [hrows]
            simpa using h)
        refine ⟨c :: front, back, by rw [hs]; rfl, ?_, ?_⟩
        · rw [width, ← Nat.add_assoc, ← hstart]
          rfl
        · rw [width, ← Nat.add_assoc, hend]

theorem length_newlines : ∀ (s : List Char) (pos : Nat),
    (offsetsOf.go (· == '\n') pos s).length + 1 = (rows s).length
  | [], pos => rfl
  | c :: s, pos => by
    have ih := length_newlines s (pos + c.utf8Size)
    rw [rows, offsetsOf.go]
    by_cases hc : c = '\n'
    · subst hc
      simp only [beq_self_eq_true, if_true, List.length_cons]
      rw [ih]
    · obtain ⟨first, rest, hrows⟩ := List.exists_cons_of_ne_nil (rows_ne_nil s)
      simp only [beq_eq_false_iff_ne.mpr hc, Bool.false_eq_true, if_false, if_neg hc, hrows] at ih ⊢
      rw [ih]
      rfl

theorem lineStart_succ {s : List Char} {i : Nat} (h : i ≤ (of s).newlines.length) :
    (of s).lineStart (i + 1) = rowStart 0 (of s).newlines i := by
  cases i with
  | zero => rfl
  | succ i =>
    obtain ⟨nl, hnl⟩ : ∃ nl, (of s).newlines[i]? = some nl :=
      ⟨_, List.getElem?_eq_getElem (Nat.lt_of_succ_le h)⟩
    rw [lineStart, rowStart, if_neg (by omega), show i + 1 + 1 - 2 = i by omega, hnl]
    rfl

theorem exists_of_row {s row : List Char} {i : Nat} (h : (rows s)[i]? = some row) :
    ∃ front back, s = front ++ row ++ back ∧ (of s).lineStart (i + 1) = width front ∧
      (of s).newlines[i]? = if back.isEmpty then none else some (width front + width row) := by
  have hlength : (of s).newlines.length + 1 = (rows s).length := length_newlines s 0
  obtain ⟨hi, -⟩ := List.getElem?_eq_some_iff.mp h
  obtain ⟨front, back, hs, hstart, hend⟩ := row_split 0 h
  refine ⟨front, back, hs, ?_, by rw [← Nat.zero_add (width front)]; exact hend⟩
  rw [lineStart_succ (by omega), ← Nat.zero_add (width front), ← hstart]
  rfl

/-- A line ends where its row does. -/
theorem lineRange_eq {s row : List Char} {i : Nat} (h : (rows s)[i]? = some row) :
    (of s).lineRange (i + 1) =
      ((of s).lineStart (i + 1), (of s).lineStart (i + 1) + width row) := by
  obtain ⟨front, back, hs, hstart, hend⟩ := exists_of_row h
  have hstop : (of s).newlines[i]?.getD (of s).size = width front + width row := by
    rw [hend]
    cases back with
    | nil =>
      rw [List.isEmpty_nil, if_pos rfl, Option.getD_none, of, hs, List.append_nil, width_append]
    | cons c back => simp
  rw [lineRange, Nat.add_sub_cancel, hstop, hstart, Nat.max_eq_left (Nat.le_add_right _ _)]

/-- The offsets of a line cut its row out of the text. -/
theorem cut_lineRange {s row : List Char} {i : Nat} (h : (rows s)[i]? = some row) :
    cut ((of s).lineRange (i + 1)).1 ((of s).lineRange (i + 1)).2 s = row := by
  obtain ⟨front, back, hs, hstart, -⟩ := exists_of_row h
  have hcut := cut_append front row back
  rw [lineRange_eq h, hstart]
  rwa [← hs] at hcut

/-- An offset in a row, or at its end, is less than the start of a later row. -/
theorem lineStart_add_lt {s row : List Char} {i j k : Nat} (hrow : (rows s)[i]? = some row)
    (hk : k ≤ width row) (hij : i < j) (hj : j < (rows s).length) :
    (of s).lineStart (i + 1) + k < (of s).lineStart (j + 1) := by
  have hlength : (of s).newlines.length + 1 = (rows s).length := length_newlines s 0
  obtain ⟨j, rfl⟩ := Nat.exists_eq_add_of_lt hij
  have hfirst : i < (of s).newlines.length := by omega
  have hlast : i + j < (of s).newlines.length := by omega
  have hle : (of s).newlines[i] ≤ (of s).newlines[i + j] := by
    rcases Nat.eq_zero_or_pos j with rfl | hpos
    · exact Nat.le_refl _
    · exact Nat.le_of_lt (List.pairwise_iff_getElem.mp (pairwise_offsetsOf (· == '\n') s)
        i (i + j) hfirst hlast (by omega))
  have hend : (of s).lineStart (i + 1) + width row = (of s).newlines[i] := by
    obtain ⟨front, back, -, hstart, hend⟩ := exists_of_row hrow
    rw [List.getElem?_eq_getElem hfirst, eq_comm, Option.ite_none_left_eq_some] at hend
    rw [hstart]
    exact Option.some.inj hend.2
  have hnext : (of s).lineStart (i + j + 1 + 1) = (of s).newlines[i + j] + 1 := by
    rw [lineStart_succ (by omega), rowStart, List.getElem?_eq_getElem hlast, Option.getD_some]
  rw [hnext]
  omega

end LineIndex

/-! ## The mask -/

namespace Mask

/-- The texts have the same width and line feeds at the same offsets. -/
def Aligned (s t : List Char) : Prop :=
  width s = width t ∧ ∀ pos, offsetsOf.go (· == '\n') pos s = offsetsOf.go (· == '\n') pos t

namespace Aligned

theorem refl (s : List Char) : Aligned s s := ⟨rfl, fun _ => rfl⟩

theorem append {s t s' t' : List Char} (h : Aligned s t) (h' : Aligned s' t') :
    Aligned (s ++ s') (t ++ t') := by
  refine ⟨by rw [width_append, width_append, h.1, h'.1], fun pos => ?_⟩
  rw [offsetsOf_go_append, offsetsOf_go_append, h.2, h'.2, h.1]

theorem spaces (n : Nat) : width (List.replicate n ' ') = n ∧
    ∀ pos, offsetsOf.go (· == '\n') pos (List.replicate n ' ') = [] := by
  induction n with
  | zero => exact ⟨rfl, fun _ => rfl⟩
  | succ n ih =>
    refine ⟨?_, fun pos => ?_⟩
    · rw [List.replicate_succ, width, ih.1, show ' '.utf8Size = 1 from rfl, Nat.add_comm]
    · rw [List.replicate_succ, offsetsOf.go, if_neg (by decide), ih.2]

theorem blank (c : Char) : Aligned [c] (Mask.blank c) := by
  rw [Mask.blank]
  split
  · exact refl _
  · next hc =>
    refine ⟨(spaces c.utf8Size).1.symm, fun pos => ?_⟩
    rw [(spaces c.utf8Size).2, offsetsOf.go, if_neg (by simpa using hc)]
    rfl

theorem hide : ∀ s : List Char, Aligned s (Mask.hide s)
  | [] => refl []
  | c :: s => (blank c).append (hide s)

end Aligned

theorem aligned_masked : ∀ step : Step, Aligned step.source step.masked
  | .plain _ => .refl _
  | .comment text => .hide text
  | .quoted _ body _ => ((Aligned.refl _).append (.hide body)).append (.refl _)

theorem aligned_mask (language : Language) (s : List Char) : Aligned s (mask language s) := by
  have h : ∀ l : List Step, Aligned (l.flatMap Step.source) (l.flatMap Step.masked) := by
    intro l
    induction l with
    | nil => exact .refl []
    | cons step l ih => exact (aligned_masked step).append ih
  have hsteps := h (steps language s)
  rwa [source_steps] at hsteps

theorem of_mask (language : Language) (s : List Char) :
    LineIndex.of (mask language s) = LineIndex.of s := by
  obtain ⟨hwidth, hnewlines⟩ := aligned_mask language s
  rw [LineIndex.of, LineIndex.of, hwidth, offsetsOf, offsetsOf, hnewlines]

end Mask

end Mend.Text
