import Mend.Proofs.Checked.Script
import Mend.Proofs.Patch.Drifted
import Mend.Proofs.Result

/-!
# Patching, with every access checked

The locator compares a snippet with parts of the text, the merge runs over a window with a cursor,
and the splice cuts the text before and after the window. Each of these accesses is checked here. A
snippet is only looked for where all of it can stand, and a script moves the cursor over as many
lines as the window has, so nothing is refused (`Checked.patched_eq`).

`patched_drifted` says what a fix leaves of a text that is not the one it was made for.
-/

namespace Mend

namespace Checked

open Diff (Edit olds news)
open Patch (Locator Location)
open Text (BadOffset)

/-! ## Where a snippet is -/

/-- How many lines of a snippet agree with the part of the text that starts at `start`. -/
def agreement (lines snippet : List (List Char)) (start : Nat) : Except BadOffset Nat := do
  let part ← partOf start (start + snippet.length) lines
  pure ((snippet.zip part).countP fun (a, b) => Patch.agree a b)

theorem agreement_eq {lines snippet : List (List Char)} {start : Nat}
    (h : start + snippet.length ≤ lines.length) :
    agreement lines snippet start = .ok (Patch.agreement lines snippet start) := by
  have hlen : (snippet.zip (lines.drop start)).length ≤ snippet.length := by
    rw [List.length_zip]
    exact Nat.min_le_left _ _
  have hzip : snippet.zip ((lines.drop start).take snippet.length) =
      snippet.zip (lines.drop start) :=
    calc snippet.zip ((lines.drop start).take snippet.length)
      _ = (snippet.take snippet.length).zip ((lines.drop start).take snippet.length) := by
        rw [List.take_length]
      _ = (snippet.zip (lines.drop start)).take snippet.length := List.take_zipWith.symm
      _ = snippet.zip (lines.drop start) := List.take_of_length_le hlen
  rw [agreement, partOf_eq (Nat.le_add_right _ _) h, Nat.add_sub_cancel_left, Patch.agreement,
    ← hzip]
  rfl

/-- The first of the starts with the greatest agreement, where this may be refused. -/
def best? (score : Nat → Except BadOffset Nat) (expected : Nat) :
    List Nat → Except BadOffset (Option (Nat × Nat))
  | [] => .ok none
  | n :: ns => do
    let later ← best? score expected ns
    let mine ← score n
    match later with
    | none => pure (some (n, mine))
    | some (m, s) =>
      if mine < s ||
          (mine == s && Patch.distance m expected < Patch.distance n expected) then
        pure (some (m, s))
      else pure (some (n, mine))

theorem best?_eq {score : Nat → Except BadOffset Nat} {f : Nat → Nat} (expected : Nat) :
    ∀ {ns : List Nat}, (∀ n ∈ ns, score n = .ok (f n)) →
      best? score expected ns = .ok (Patch.best? f expected ns)
  | [], _ => rfl
  | n :: ns, h => by
    have ih := best?_eq expected fun m hm => h m (List.mem_cons_of_mem n hm)
    rw [best?, Patch.best?, ih, h n List.mem_cons_self]
    cases hbest : Patch.best? f expected ns with
    | none => rfl
    | some r =>
      simp only [bind, Except.bind]
      split <;> rfl

theorem best?_agreement {lines snippet : List (List Char)} {expected : Nat} {starts : List Nat}
    (h : ∀ start ∈ starts, start + snippet.length ≤ lines.length) :
    best? (agreement lines snippet) expected starts =
      .ok (Patch.best? (Patch.agreement lines snippet) expected starts) :=
  best?_eq expected fun start hstart => agreement_eq (h start hstart)

/-- The starts up to `lastStart` at which all lines of a snippet agree. -/
def standing (lines snippet : List (List Char)) (lastStart : Nat) : Except BadOffset (List Nat) :=
  (List.range (lastStart + 1)).filterMapM fun start => do
    let count ← agreement lines snippet start
    pure (if count == snippet.length then some start else none)

theorem standing_eq {lines snippet : List (List Char)} {lastStart : Nat}
    (h : lastStart + snippet.length ≤ lines.length) :
    standing lines snippet lastStart = .ok ((List.range (lastStart + 1)).filter fun start =>
      Patch.agreement lines snippet start == snippet.length) := by
  rw [← List.filterMap_eq_filter]
  refine filterMapM_eq_ok fun start hstart => ?_
  have hle := List.mem_range.mp hstart
  rw [agreement_eq (by omega)]
  rfl

/-- Where a snippet that was at line `near` is now. How far the reach goes is a count: a sum that is
too large for one wraps and is not refused. -/
def locate (l : Locator) (lines snippet : List (List Char)) (near : Nat) :
    Except BadOffset Location :=
  if snippet.isEmpty || lines.length < snippet.length then pure .unresolved
  else do
    let expected := near - 1
    let lastStart ← stepBack snippet.length lines.length
    let exact ← standing lines snippet lastStart
    match Patch.nearest? expected exact with
    | some start => pure (.exact start)
    | none =>
      let lo := expected - l.anchorOffset
      let hi := min (Count.wrapped (expected + l.anchorOffset)) lastStart
      let best ← best? (agreement lines snippet) expected (List.range' lo (hi + 1 - lo))
      match best with
      | some (start, count) =>
        let similarity : Ratio := ⟨count, snippet.length⟩
        pure (if l.accepts similarity then .anchored start similarity else .unresolved)
      | none => pure .unresolved

theorem locate_eq (l : Locator) (lines snippet : List (List Char)) (near : Nat) :
    locate l lines snippet near = .ok (l.locate lines snippet near) := by
  rw [locate, Locator.locate]
  split
  · rfl
  · next hguard =>
    rw [Bool.or_eq_true, decide_eq_true_eq, not_or, Nat.not_lt] at hguard
    simp only [stepBack_eq hguard.2, bind, Except.bind,
      standing_eq (show lines.length - snippet.length + snippet.length ≤ lines.length by omega)]
    generalize Patch.nearest? (near - 1) _ = exact
    cases exact with
    | some start => rfl
    | none =>
      simp only []
      rw [best?_agreement fun start hstart => by
        have hrange := List.mem_range'_1.mp hstart
        omega]
      simp only []
      generalize Patch.best? (Patch.agreement lines snippet) (near - 1) _ = best
      cases best with
      | none => rfl
      | some r =>
        simp only []
        split <;> rfl

/-! ## What is written there -/

/-- The blanks that a line starts with. -/
def indentation (line : List Char) : Except BadOffset (List Char) := do
  let stop ← stepBack (Text.trimStart line).length line.length
  frontOf stop line

theorem indentation_eq (line : List Char) : indentation line = .ok (Text.indentation line) := by
  have hsplit := List.takeWhile_append_dropWhile (p := Text.isBlank) (l := line)
  have hlen := congrArg List.length hsplit
  rw [List.length_append] at hlen
  have hstop : line.length - (Text.trimStart line).length = (Text.indentation line).length := by
    rw [Text.trimStart, Text.indentation]
    omega
  have hfront : line.take (Text.indentation line).length = Text.indentation line := by
    have htake : (line.takeWhile Text.isBlank ++ line.dropWhile Text.isBlank).take
        (Text.indentation line).length = Text.indentation line := List.take_left
    rwa [hsplit] at htake
  rw [indentation, stepBack_eq (by rw [Text.trimStart]; omega)]
  simp only [hstop, bind, Except.bind]
  rw [frontOf_eq (by rw [Text.indentation]; omega), hfront]

/-- Replay an edit script on the lines of a window from line `k` on. -/
def replay (old new : List Char) (window : List (List Char)) : Nat → List (Edit (List Char)) →
    Except BadOffset (Option (List (List Char)))
  | _, [] => .ok (some [])
  | k, .insert line :: edits => do
    let merged ← replay old new window k edits
    pure (merged.map (Patch.reindent old new line :: ·))
  | k, .keep _ :: edits => do
    let there ← itemAt k window
    let merged ← replay old new window (k + 1) edits
    pure (merged.map (there :: ·))
  | k, .delete line :: edits => do
    let there ← itemAt k window
    if Patch.agree there line then replay old new window (k + 1) edits else pure none

/-- The cursor moves over one line for each line that the script reads. -/
theorem replay_eq (old new : List Char) (window : List (List Char)) :
    ∀ (edits : List (Edit (List Char))) {k : Nat}, k + (olds edits).length ≤ window.length →
      replay old new window k edits = .ok (Patch.replay old new (window.drop k) edits)
  | [], k, _ => by
    rw [replay, Patch.replay]
  | .insert line :: edits, k, h => by
    rw [replay, Patch.replay, replay_eq old new window edits h]
    rfl
  | .keep line :: edits, k, h => by
    rw [Diff.olds_keep, List.length_cons] at h
    rw [replay, itemAt_eq (List.getElem?_eq_getElem (by omega)),
      List.drop_eq_getElem_cons (by omega), Patch.replay]
    simp only [bind, Except.bind, replay_eq old new window edits (show k + 1 + _ ≤ _ by omega)]
    rfl
  | .delete line :: edits, k, h => by
    rw [Diff.olds_delete, List.length_cons] at h
    rw [replay, itemAt_eq (List.getElem?_eq_getElem (by omega)),
      List.drop_eq_getElem_cons (by omega), Patch.replay]
    simp only [bind, Except.bind, replay_eq old new window edits (show k + 1 + _ ≤ _ by omega)]
    split <;> rfl

/-- The lines that take the place of a window. -/
def merge (window replaced suggested : List (List Char)) :
    Except BadOffset (Option (List (List Char))) :=
  match replaced.head?, window.head? with
  | some line, some there => do
    let old ← indentation line
    let new ← indentation there
    let edits ← shortest replaced suggested
    replay old new window 0 edits
  | _, _ => pure none

theorem merge_eq {window replaced : List (List Char)} (h : window.length = replaced.length)
    (suggested : List (List Char)) :
    merge window replaced suggested = .ok (Patch.merge window replaced suggested) := by
  cases replaced with
  | nil => rfl
  | cons line rest =>
    cases window with
    | nil => cases h
    | cons there window =>
      have hlen : 0 + (olds (Diff.shortest (line :: rest) suggested)).length ≤
          (there :: window).length := by
        rw [Diff.olds_shortest, h, Nat.zero_add]
      simp only [merge, List.head?_cons, indentation_eq, shortest_eq, bind, Except.bind,
        replay_eq _ _ _ _ hlen]
      rfl

/-- What ends a line. -/
def terminator (line : List Char) : Except BadOffset (List Char) :=
  restOf (Text.stripTerminator line).length line

theorem terminator_eq {line : List Char} (h : Text.IsPiece line) :
    terminator line = .ok (Patch.terminator line) := by
  have hlen := congrArg List.length (Patch.stripTerminator_append h)
  rw [List.length_append] at hlen
  exact restOf_eq (by omega)

/-- The text with `count` lines from line `start` on replaced. -/
def spliceLines (content : List Char) (start count : Nat) (replacement : List (List Char)) :
    Except BadOffset (List Char) := do
  let raw := Text.pieces content
  let eol := (Text.lineEnding content).toList
  let place ← stepBack 1 (start + count)
  let last ← match raw[place]? with
    | some line => terminator line
    | none => pure eol
  let front ← frontOf start raw
  let back ← restOf (start + count) raw
  pure (front ++ Patch.terminated eol last replacement ++ back).flatten

theorem spliceLines_eq {content : List Char} {start count : Nat} (hpos : 0 < count)
    (h : start + count ≤ (Text.pieces content).length) (replacement : List (List Char)) :
    spliceLines content start count replacement =
      .ok (Patch.spliceLines content start count replacement) := by
  have hplace : start + count - 1 < (Text.pieces content).length := by omega
  have hpiece := Text.isPiece_of_mem_pieces (List.getElem_mem hplace)
  rw [spliceLines, Patch.spliceLines, stepBack_eq (by omega)]
  simp only [bind, Except.bind, List.getElem?_eq_getElem hplace, terminator_eq hpiece,
    frontOf_eq (show start ≤ (Text.pieces content).length by omega), restOf_eq h]
  rfl

/-- The text after a fix, and how the fix was placed. -/
def patched (locator : Locator) (content : List Char) (fix : Fix) (language : Language) :
    Except BadOffset (List Char × Placement) := do
  let lines := (Text.pieces content).map Text.stripTerminator
  let replaced := Text.rows fix.replacedCode.toList
  let suggested := Text.rows fix.suggestedCode.toList
  let location ← locate locator lines replaced fix.line
  match location.start? with
  | some start => do
    let window ← partOf start (start + replaced.length) lines
    let merged ← merge window replaced suggested
    match merged with
    | some merged => do
      let text ← spliceLines content start replaced.length merged
      pure (text, location.placement)
    | none => pure (Patch.manualComment content fix language, .manualComment)
  | none => pure (Patch.manualComment content fix language, .manualComment)

theorem patched_eq (locator : Locator) (content : List Char) (fix : Fix) (language : Language) :
    patched locator content fix language = .ok (Patch.patched locator content fix language) := by
  have hlocate := locate_eq locator ((Text.pieces content).map Text.stripTerminator)
    (Text.rows fix.replacedCode.toList) fix.line
  rw [← Patch.located] at hlocate
  simp only [patched, hlocate, bind, Except.bind]
  cases hstart : (Patch.located locator content fix).start? with
  | none => rw [Patch.patched_of_unresolved language hstart]; rfl
  | some start =>
    obtain ⟨hne, hinside⟩ := Patch.locate_inside hstart
    have hwindow := partOf_eq (Nat.le_add_right start (Text.rows fix.replacedCode.toList).length)
      hinside
    have hlen : ((((Text.pieces content).map Text.stripTerminator).drop start).take
        (Text.rows fix.replacedCode.toList).length).length =
          (Text.rows fix.replacedCode.toList).length := by
      rw [List.length_take, List.length_drop]
      omega
    rw [Nat.add_sub_cancel_left] at hwindow
    rw [List.length_map] at hinside
    rw [Patch.patched_of_start language hstart]
    cases hmerge : Patch.merge ((((Text.pieces content).map Text.stripTerminator).drop start).take
        (Text.rows fix.replacedCode.toList).length) (Text.rows fix.replacedCode.toList)
        (Text.rows fix.suggestedCode.toList) with
    | none =>
      simp only [hwindow, merge_eq hlen, hmerge]
      rfl
    | some merged =>
      simp only [hwindow, merge_eq hlen, hmerge,
        spliceLines_eq (List.length_pos_iff.mpr hne) hinside]
      rfl

end Checked

namespace Patch

open Diff (olds news)

/-- A fix either leaves the text as it is and adds a comment at its end, which never happens where
its snippet stands exactly, or it exchanges a window of as many lines as the snippet has and leaves
all other lines. What becomes of the window is an edit script from it to the merged lines, which
goes edit by edit with the shortest script from the snippet to the suggested code: the window's
lines are kept as they are or dropped, and suggested lines are inserted. A line is dropped only if
it is, blanks aside, the line of the snippet at the same place, and the script deletes that one.
With every access checked the outcome is the same: none is refused. -/
theorem patched_drifted (locator : Locator) (content : List Char) (fix : Fix)
    (language : Language) :
    ((patched locator content fix language).2 = .manualComment ∧
        content <+: (patched locator content fix language).1 ∧
        (∀ start, located locator content fix ≠ .exact start) ∨
      ∃ front place last back script,
        Text.pieces content = front ++ (place ++ [last]) ++ back ∧
        (located locator content fix).start? = some front.length ∧
        (patched locator content fix language).2 = (located locator content fix).placement ∧
        (place ++ [last]).length = (Text.rows fix.replacedCode.toList).length ∧
        olds script = (place ++ [last]).map Text.stripTerminator ∧
        List.Forall₂ (Replays
            (Text.indentation ((Text.rows fix.replacedCode.toList).headD []))
            (Text.indentation ((olds script).headD [])))
          (Diff.shortest (Text.rows fix.replacedCode.toList) (Text.rows fix.suggestedCode.toList))
          script ∧
        (∀ before there after, script = before ++ .delete there :: after → ∃ start line rest,
          Diff.shortest (Text.rows fix.replacedCode.toList) (Text.rows fix.suggestedCode.toList) =
            start ++ .delete line :: rest ∧
          (Text.rows fix.replacedCode.toList)[(olds before).length]? = some line ∧
          Text.trim there = Text.trim line) ∧
        (patched locator content fix language).1 =
          (front ++ terminated (Text.lineEnding content).toList (terminator last) (news script) ++
            back).flatten) ∧
    Checked.patched locator content fix language =
      .ok (patched locator content fix language) := by
  refine ⟨?_, Checked.patched_eq locator content fix language⟩
  have hne := Text.rows_ne_nil fix.replacedCode.toList
  cases hstart : (located locator content fix).start? with
  | none =>
    left
    rw [patched_of_unresolved language hstart]
    refine ⟨rfl, prefix_manualComment content fix language, fun start hexact => ?_⟩
    rw [hexact] at hstart
    cases hstart
  | some start =>
    obtain ⟨-, hinside⟩ := locate_inside hstart
    rw [List.length_map] at hinside
    obtain ⟨front, place, last, back, hpieces, rfl, hplace, hlen⟩ :=
      exists_part_at (List.length_pos_iff.mpr hne) hinside
    have hpatched := patched_of_start language hstart
    cases hmerge : merge ((((Text.pieces content).map Text.stripTerminator).drop front.length).take
        (Text.rows fix.replacedCode.toList).length) (Text.rows fix.replacedCode.toList)
        (Text.rows fix.suggestedCode.toList) with
    | none =>
      left
      simp only [hmerge] at hpatched
      rw [hpatched]
      refine ⟨rfl, prefix_manualComment content fix language, fun start hexact => ?_⟩
      -- On an exact place all lines are there, so that merging cannot have failed.
      rw [hexact] at hstart
      obtain rfl := Option.some.inj hstart
      obtain ⟨merged, hmerged⟩ :=
        exists_merge_of_exact hexact (Text.rows fix.suggestedCode.toList)
      rw [hmerge] at hmerged
      cases hmerged
    | some merged =>
      right
      simp only [hmerge] at hpatched
      rw [← List.map_drop, ← List.map_take, hplace] at hmerge
      obtain ⟨script, holds, rfl, hscript⟩ :=
        exists_script_of_merge hmerge (by rw [List.length_map, hlen])
      refine ⟨front, place, last, back, script, hpieces, rfl, ?_, hlen, holds, holds ▸ hscript,
        ?_, ?_⟩
      · rw [hpatched]
      · intro before there after hdelete
        have hdropped := dropped_of_replays hscript hdelete
        rwa [Diff.olds_shortest] at hdropped
      · rw [hpatched, ← hlen]
        exact spliceLines_append hpieces _

end Patch

end Mend
