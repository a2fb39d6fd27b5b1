import Mend.Proofs.Checked.Basic
import Mend.Proofs.Diff.Exact
import Mend.Proofs.Text.Lines

/-!
# Applying a diff, with every access checked

The text's lines stay in one list, and a cursor runs over them. Lines are cut out only between the
cursor and the start of a hunk, and from the cursor to the end. Whatever the hunks say, no such cut
is refused (`Checked.apply_eq`).

`apply_exact` says what becomes of a text and a diff of any origin.
-/

namespace Mend

namespace Checked

open Diff (Error Hunk Line)
open Text (BadOffset)

/-- Apply the lines of a hunk from a cursor on: the new lines, and the cursor after the old ones. A
line past the end of the text is one that differs. -/
def applyLines (lines : List String) (cursor : Nat) : List Line → Except Error (List String × Nat)
  | [] => .ok ([], cursor)
  | l :: ls =>
    match l.old? with
    | none => do
      let (out, stop) ← applyLines lines cursor ls
      .ok (l.new?.toList ++ out, stop)
    | some t =>
      if lines[cursor]? = some t then do
        let (out, stop) ← applyLines lines (cursor + 1) ls
        .ok (l.new?.toList ++ out, stop)
      else .error (.mismatch (cursor + 1))

/-- Apply hunks from a cursor on. -/
def applyHunks (lines : List String) (cursor : Nat) : List Hunk →
    Except BadOffset (Except Error (List String))
  | [] => do
    let rest ← restOf cursor lines
    pure (.ok rest)
  | h :: hs =>
    let start := h.oldIndex
    if start < cursor || lines.length < start then pure (.error (.outOfRange h.oldStart))
    else do
      let kept ← partOf cursor start lines
      match applyLines lines start h.lines with
      | .error e => pure (.error e)
      | .ok (out, stop) => do
        let after ← applyHunks lines stop hs
        pure (after.map (kept ++ out ++ ·))

/-- Apply a diff to a text. -/
def apply (current : String) (hunks : List Hunk) : Except BadOffset (Except Error String) := do
  let lines ← applyHunks (Text.linesKept current) 0 hunks
  pure (lines.map String.join)

/-! ## Nothing is refused -/

/-- The cursor stands where the rest of the text begins. -/
theorem applyLines_eq (lines : List String) : ∀ (ls : List Line) {cursor : Nat},
    cursor ≤ lines.length → applyLines lines cursor ls =
      (Diff.applyLines cursor (lines.drop cursor) ls).map
        fun r => (r.1, lines.length - r.2.length)
  | [], cursor, hcursor => by
    have hstop : lines.length - (lines.drop cursor).length = cursor := by
      rw [List.length_drop]
      omega
    simp only [applyLines, Diff.applyLines, Except.map, hstop]
  | l :: ls, cursor, hcursor => by
    rw [applyLines]
    cases hold : l.old? with
    | none =>
      rw [Diff.applyLines_new ls hold, applyLines_eq lines ls hcursor]
      cases Diff.applyLines cursor (lines.drop cursor) ls <;> rfl
    | some t =>
      by_cases hhead : lines[cursor]? = some t
      · obtain ⟨hlt, hget⟩ := List.getElem?_eq_some_iff.mp hhead
        simp only [if_pos hhead]
        rw [List.drop_eq_getElem_cons hlt, hget, Diff.applyLines_old ls hold,
          applyLines_eq lines ls hlt]
        cases Diff.applyLines (cursor + 1) (lines.drop (cursor + 1)) ls <;> rfl
      · simp only [if_neg hhead]
        rw [Diff.applyLines_mismatch ls hold (by rwa [List.head?_drop])]
        rfl

/-- The text is cut at the start of a hunk only if that lies between the cursor and the end. -/
theorem applyHunks_placed {lines : List String} {cursor : Nat} {h : Hunk}
    (hplaced : h.Placed cursor lines) (hs : List Hunk) :
    applyHunks lines cursor (h :: hs) =
      match applyLines lines h.oldIndex h.lines with
      | .error e => .ok (.error e)
      | .ok (out, stop) => (applyHunks lines stop hs).map
          fun after => after.map ((lines.drop cursor).take (h.oldIndex - cursor) ++ out ++ ·) := by
  obtain ⟨hbehind, hinside⟩ := hplaced
  have hguard : ¬ (h.oldIndex < cursor || lines.length < h.oldIndex) = true := by
    rw [Bool.or_eq_true, decide_eq_true_eq, decide_eq_true_eq]
    omega
  rw [applyHunks]
  simp only [if_neg hguard, partOf_eq hbehind hinside, bind, Except.bind]
  cases applyLines lines h.oldIndex h.lines with
  | error e => rfl
  | ok r =>
    simp only []
    cases applyHunks lines r.2 hs <;> rfl

theorem applyHunks_eq {lines : List String} : ∀ (hunks : List Hunk) {cursor : Nat},
    cursor ≤ lines.length →
      applyHunks lines cursor hunks = .ok (Diff.applyHunks cursor (lines.drop cursor) hunks)
  | [], cursor, hcursor => by
    rw [applyHunks, restOf_eq hcursor]
    rfl
  | h :: hs, cursor, hcursor => by
    rcases Diff.stands_or_fails cursor lines h with ⟨hplaced, hstands⟩ | ⟨e, hfails⟩
    · have hend := hstands.oldEnd_le hplaced
      have hstop : lines.length - (lines.drop h.oldEnd).length = h.oldEnd := by
        rw [List.length_drop]
        omega
      rw [applyHunks_placed hplaced, applyLines_eq lines h.lines hplaced.2, hstands.applyLines,
        Diff.applyHunks_stands hplaced hstands]
      simp only [Except.map, hstop, applyHunks_eq hs hend]
    · rw [Diff.applyHunks_fails hcursor hfails]
      rcases hfails with ⟨hmisplaced, rfl⟩ | ⟨hplaced, k, hdiffers, rfl⟩
      · have hguard : (h.oldIndex < cursor || lines.length < h.oldIndex) = true := by
          rw [Bool.or_eq_true, decide_eq_true_eq, decide_eq_true_eq]
          rw [Hunk.Placed] at hmisplaced
          omega
        rw [applyHunks]
        exact if_pos hguard
      · rw [applyHunks_placed hplaced, applyLines_eq lines h.lines hplaced.2,
          Diff.applyLines_differs hdiffers]
        rfl

theorem apply_eq (current : String) (hunks : List Hunk) :
    apply current hunks = .ok (Diff.apply current hunks) := by
  rw [apply, applyHunks_eq hunks (Nat.zero_le _), List.drop_zero, Diff.apply]
  cases Diff.applyHunks 0 (Text.linesKept current) hunks <;> rfl

end Checked

namespace Diff

/-- A diff of any origin applies to a text exactly if its hunks fit the lines of the text, and then
the old lines of each hunk give way to its new ones. If they do not fit, the first hunk that starts
outside the text or before the end of the one before it, or whose old lines are not the ones that
stand there, gives the error. With every access checked the outcome is the same: none is refused. -/
theorem apply_exact (current : String) (hunks : List Hunk) :
    (∀ new, apply current hunks = .ok new ↔
      Fit 0 (Text.linesKept current) hunks ∧
        new = String.join (rewritten 0 (Text.linesKept current) hunks)) ∧
    (∀ e, apply current hunks = .error e ↔
      ∃ before h after, hunks = before ++ h :: after ∧ Fit 0 (Text.linesKept current) before ∧
        h.Fails (endOf 0 before) (Text.linesKept current) e) ∧
    Checked.apply current hunks = .ok (apply current hunks) := by
  have happly : apply current hunks =
      (applyHunks 0 ((Text.linesKept current).drop 0) hunks).map String.join := by
    rw [apply, List.drop_zero]
    cases applyHunks 0 (Text.linesKept current) hunks <;> rfl
  refine ⟨fun new => ?_, fun e => ?_, Checked.apply_eq current hunks⟩
  · rw [happly]
    constructor
    · intro hok
      obtain ⟨out, hout, rfl⟩ := exists_of_map hok
      obtain ⟨hfit, rfl⟩ := (applyHunks_eq_ok_iff (Nat.zero_le _)).mp hout
      exact ⟨hfit, rfl⟩
    · rintro ⟨hfit, rfl⟩
      rw [(applyHunks_eq_ok_iff (Nat.zero_le _)).mpr ⟨hfit, rfl⟩]
      rfl
  · rw [happly, map_eq_error, applyHunks_eq_error_iff (Nat.zero_le _)]

end Diff

end Mend
