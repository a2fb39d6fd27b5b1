import Mend.Proofs.Diff.Exact
import Mend.Proofs.Text.Lines

/-!
# Applying the hunks of an edit script

A hunk reorders the lines of its edits, all removals of a run before the additions, and this changes
neither side (`olds_hunkOf`, `news_hunkOf`). Whatever the hunk's lengths, it starts after the old
lines before it (`oldIndex_hunkOf`).

`applyHunks_hunksFrom` is the statement by induction. It speaks of a text in which the old side of
the script stands between other lines, and of hunks that are renumbered for it, so that it covers
the diff of two whole texts (`apply_between`) as well as the diff of a few lines shifted to their
place in a file.
-/

namespace Mend.Diff

/-! ## One hunk -/

/-- The hunk renumbered for a text that starts `k` lines into its file. -/
def Hunk.shift (k : Nat) (h : Hunk) : Hunk :=
  { h with oldStart := h.oldStart + k, newStart := h.newStart + k }

theorem takeHunk_append (context : Nat) (edits : List (Edit String)) :
    (takeHunk context edits).1 ++ (takeHunk context edits).2 = edits := by
  fun_induction takeHunk context edits with
  | case1 => rfl
  | case2 e es changes rest kept later h =>
    calc changes ++ kept.take context ++ (kept.drop context ++ later)
        = changes ++ (kept.take context ++ kept.drop context ++ later) := by
          simp only [List.append_assoc]
      _ = e :: es := by
        rw [List.take_append_drop, List.takeWhile_append_dropWhile,
          List.takeWhile_append_dropWhile]
  | case3 e es changes rest kept later h more after heq ih =>
    rw [heq] at ih
    calc changes ++ kept ++ more ++ after = changes ++ (kept ++ (more ++ after)) := by
          simp only [List.append_assoc]
      _ = e :: es := by
        rw [ih, List.takeWhile_append_dropWhile, List.takeWhile_append_dropWhile]

/-- A hunk takes at least the change that it starts with. -/
theorem length_takeHunk_lt (context : Nat) {e : Edit String} (es : List (Edit String))
    (he : e.isKeep = false) : (takeHunk context (e :: es)).2.length < (e :: es).length := by
  have hchanges : 0 < ((e :: es).takeWhile fun e => !e.isKeep).length := by
    simp [he]
  have hpos : 0 < (takeHunk context (e :: es)).1.length := by
    rw [takeHunk]
    split <;> simp only [List.length_append] <;> omega
  have hsum := congrArg List.length (takeHunk_append context (e :: es))
  rw [List.length_append] at hsum
  omega

end Mend.Diff
