import Mend.Proofs.Patch.Splice

/-!
# Patching a file that has drifted

A fix is made for a snippet, and replayed on the lines that stand in its place now. Line by line the
window goes the way of the snippet (`Replays`): where the script keeps a line of the snippet, the
window's own line is kept as it is, and where it deletes one, the window's line is dropped, but only
if it still is that line. Everything outside the window stays. An exact place never fails
(`exists_merge_of_exact`), so a fix ends as a comment only where its snippet stands nowhere.
-/

namespace Mend.Patch

open Diff (Edit olds news)

/-! ## Where a location is -/

/-- The line at which a snippet was found. -/
def Location.start? : Location → Option Nat
  | exact start | anchored start _ => some start
  | unresolved => none

/-- How a fix is placed that is carried out where its snippet was found. -/
def Location.placement : Location → Placement
  | exact _ => .exact
  | anchored _ _ => .anchored
  | unresolved => .manualComment

theorem best?_mem {score : Nat → Nat} {expected : Nat} :
    ∀ {ns : List Nat} {m s : Nat}, best? score expected ns = some (m, s) → m ∈ ns
  | [], m, s, h => by simp [best?] at h
  | n :: ns, m, s, h => by
    rw [best?] at h
    cases hbest : best? score expected ns with
    | none =>
      rw [hbest] at h
      obtain ⟨rfl, -⟩ := Prod.mk.inj (Option.some.inj h)
      exact List.mem_cons_self
    | some r =>
      obtain ⟨m', s'⟩ := r
      simp only [hbest] at h
      split at h
      · obtain ⟨rfl, -⟩ := Prod.mk.inj (Option.some.inj h)
        exact List.mem_cons_of_mem n (best?_mem hbest)
      · obtain ⟨rfl, -⟩ := Prod.mk.inj (Option.some.inj h)
        exact List.mem_cons_self

/-- A snippet is found inside the text. -/
theorem locate_inside {l : Locator} {lines snippet : List (List Char)} {near start : Nat}
    (h : (l.locate lines snippet near).start? = some start) :
    snippet ≠ [] ∧ start + snippet.length ≤ lines.length := by
  cases hlocate : l.locate lines snippet near with
  | exact found =>
    rw [hlocate] at h
    obtain rfl := Option.some.inj h
    obtain ⟨hne, ⟨hle, -⟩, -⟩ := (locate_eq_exact_iff l).mp hlocate
    exact ⟨hne, hle⟩
  | anchored found similarity =>
    rw [hlocate] at h
    obtain rfl := Option.some.inj h
    unfold Locator.locate at hlocate
    split at hlocate
    · cases hlocate
    · next hguard =>
      simp only [Bool.or_eq_true, List.isEmpty_iff, decide_eq_true_eq, not_or] at hguard
      simp only [] at hlocate
      split at hlocate
      · cases hlocate
      · split at hlocate
        · next m count hbest =>
          split at hlocate
          · obtain ⟨rfl, -⟩ := Location.anchored.inj hlocate
            have hmem := List.mem_range'_1.mp (best?_mem hbest)
            exact ⟨hguard.1, by omega⟩
          · cases hlocate
        · cases hlocate
  | unresolved =>
    rw [hlocate] at h
    cases h

/-! ## What becomes of the window -/

/-- An edit of the snippet, and what it does to the window. -/
inductive Replays (old new : List Char) : Edit (List Char) → Edit (List Char) → Prop
  /-- Where a line is kept, the window's line stays as it is. -/
  | keep (line there : List Char) : Replays old new (.keep line) (.keep there)
  /-- Where a line is deleted, the window's line is dropped, if it is the same line. -/
  | delete {line there : List Char} (h : Text.trim there = Text.trim line) :
      Replays old new (.delete line) (.delete there)
  | insert (line : List Char) : Replays old new (.insert line) (.insert (reindent old new line))

variable {old new : List Char} {window merged : List (List Char)} {edits : List (Edit (List Char))}

/-- Replaying a script on a window is a script of the window, edit by edit. -/
theorem exists_script_of_replay (hrun : replay old new window edits = some merged)
    (hlen : window.length = (olds edits).length) :
    ∃ script, olds script = window ∧ news script = merged ∧
      List.Forall₂ (Replays old new) edits script := by
  fun_induction replay old new window edits generalizing merged with
  | case1 window =>
    obtain rfl := Option.some.inj hrun
    exact ⟨[], (List.eq_nil_of_length_eq_zero hlen).symm, rfl, .nil⟩
  | case2 window line edits ih =>
    obtain ⟨later, hlater, rfl⟩ := Option.map_eq_some_iff.mp hrun
    obtain ⟨script, rfl, rfl, hscript⟩ := ih hlater hlen
    exact ⟨.insert (reindent old new line) :: script, rfl, rfl, .cons (.insert line) hscript⟩
  | case3 w window line edits ih =>
    obtain ⟨later, hlater, rfl⟩ := Option.map_eq_some_iff.mp hrun
    obtain ⟨script, rfl, rfl, hscript⟩ := ih hlater (Nat.succ.inj hlen)
    exact ⟨.keep w :: script, rfl, rfl, .cons (.keep line w) hscript⟩
  | case4 w window line edits hagree ih =>
    obtain ⟨script, rfl, rfl, hscript⟩ := ih hrun (Nat.succ.inj hlen)
    exact ⟨.delete w :: script, rfl, rfl, .cons (.delete (beq_iff_eq.mp hagree)) hscript⟩
  | case5 w window line edits hdiffers => cases hrun
  | case6 line edits => cases hrun
  | case7 line edits => cases hrun

/-- Where all lines of the window are those of the snippet, replaying succeeds. -/
theorem exists_replay (h : List.Forall₂ (fun there line => agree there line = true) window
    (olds edits)) : ∃ merged, replay old new window edits = some merged := by
  fun_induction replay old new window edits with
  | case1 window => exact ⟨[], rfl⟩
  | case2 window line edits ih =>
    obtain ⟨merged, hmerged⟩ := ih h
    exact ⟨_, congrArg (Option.map _) hmerged⟩
  | case3 w window line edits ih =>
    obtain ⟨merged, hmerged⟩ := ih (List.forall₂_cons.mp h).2
    exact ⟨_, congrArg (Option.map _) hmerged⟩
  | case4 w window line edits hagree ih => exact ih (List.forall₂_cons.mp h).2
  | case5 w window line edits hdiffers => exact absurd (List.forall₂_cons.mp h).1 hdiffers
  | case6 line edits =>
    rw [Diff.olds_keep] at h
    cases h
  | case7 line edits =>
    rw [Diff.olds_delete] at h
    cases h

/-- A dropped line of the window is that of the snippet at the same place, and the script deletes
that one. -/
theorem dropped_of_replays {script : List (Edit (List Char))}
    (h : List.Forall₂ (Replays old new) edits script) :
    ∀ {before : List (Edit (List Char))} {there : List Char} {after : List (Edit (List Char))},
      script = before ++ .delete there :: after → ∃ start line rest,
        edits = start ++ .delete line :: rest ∧ (olds edits)[(olds before).length]? = some line ∧
          Text.trim there = Text.trim line := by
  induction h with
  | nil => exact fun hscript => absurd hscript (by simp)
  | @cons e f edits script hfirst hrest ih =>
    intro before there after hscript
    cases before with
    | nil =>
      obtain ⟨rfl, rfl⟩ := List.cons.inj hscript
      cases hfirst with
      | @delete line _ htrim => exact ⟨[], line, edits, rfl, rfl, htrim⟩
    | cons g before =>
      obtain ⟨rfl, hlater⟩ := List.cons.inj hscript
      obtain ⟨start, line, rest, hedits, hline, htrim⟩ := ih hlater
      refine ⟨e :: start, line, rest, congrArg (e :: ·) hedits, ?_, htrim⟩
      cases hfirst with
      | keep _ _ => exact hline
      | delete _ => exact hline
      | insert _ => exact hline

/-! ## The merged lines -/

theorem agree_comm (a b : List Char) : agree a b = agree b a :=
  Bool.beq_comm

/-- Lines that all agree with those of a snippet. -/
theorem forall₂_of_countP : ∀ {snippet rest : List (List Char)},
    (snippet.zip rest).countP (fun (a, b) => agree a b) = snippet.length →
      List.Forall₂ (fun there line => agree there line = true) (rest.take snippet.length) snippet
  | [], rest, _ => by
    rw [List.length_nil, List.take_zero]
    exact .nil
  | a :: snippet, [], h => by simp at h
  | a :: snippet, b :: rest, h => by
    rw [List.zip_cons_cons, List.countP_cons, List.length_cons] at h
    have hle : (snippet.zip rest).countP (fun (a, b) => agree a b) ≤ snippet.length :=
      Nat.le_trans List.countP_le_length (by rw [List.length_zip]; exact Nat.min_le_left _ _)
    by_cases hagree : agree a b = true
    · rw [if_pos hagree] at h
      exact .cons (agree_comm a b ▸ hagree) (forall₂_of_countP (Nat.succ.inj h))
    · rw [if_neg hagree] at h
      omega

/-- Where a snippet stands exactly, the fix can be carried out. -/
theorem exists_merge_of_exact {locator : Locator} {lines replaced : List (List Char)}
    {near start : Nat} (h : locator.locate lines replaced near = .exact start)
    (suggested : List (List Char)) :
    ∃ merged, merge ((lines.drop start).take replaced.length) replaced suggested = some merged := by
  obtain ⟨hne, hstands, -⟩ := (locate_eq_exact_iff locator).mp h
  have hall := forall₂_of_countP hstands.2
  obtain ⟨line, rest, rfl⟩ := List.exists_cons_of_ne_nil hne
  cases hwindow : (lines.drop start).take (line :: rest).length with
  | nil =>
    rw [hwindow] at hall
    cases hall
  | cons there window =>
    rw [hwindow, ← Diff.olds_shortest (line :: rest) suggested] at hall
    exact exists_replay hall

/-- What merging makes of a window of as many lines. -/
theorem exists_script_of_merge {window replaced suggested merged : List (List Char)}
    (h : merge window replaced suggested = some merged) (hlen : window.length = replaced.length) :
    ∃ script, olds script = window ∧ news script = merged ∧
      List.Forall₂ (Replays (Text.indentation (replaced.headD []))
        (Text.indentation (window.headD []))) (Diff.shortest replaced suggested) script := by
  cases replaced with
  | nil => cases h
  | cons line rest =>
    cases window with
    | nil => cases hlen
    | cons there window =>
      refine exists_script_of_replay h ?_
      rw [Diff.olds_shortest, hlen]

/-! ## The patched text -/

theorem prefix_manualComment (content : List Char) (fix : Fix) (language : Language) :
    content <+: manualComment content fix language := by
  unfold manualComment
  simp only []
  split
  · exact List.prefix_append _ _
  · rw [List.append_assoc]
    exact List.prefix_append _ _

/-- Where the snippet of a fix is in a text. -/
def located (locator : Locator) (content : List Char) (fix : Fix) : Location :=
  locator.locate ((Text.pieces content).map Text.stripTerminator) (Text.rows fix.replacedCode.toList)
    fix.line

/-- The text after a fix that is carried out where its snippet was found. -/
theorem patched_of_start {locator : Locator} {content : List Char} {fix : Fix}
    (language : Language) {start : Nat} (h : (located locator content fix).start? = some start) :
    patched locator content fix language =
      match merge ((((Text.pieces content).map Text.stripTerminator).drop start).take
          (Text.rows fix.replacedCode.toList).length) (Text.rows fix.replacedCode.toList)
          (Text.rows fix.suggestedCode.toList) with
      | some merged => (spliceLines content start (Text.rows fix.replacedCode.toList).length merged,
          (located locator content fix).placement)
      | none => (manualComment content fix language, .manualComment) := by
  rw [located] at h ⊢
  unfold patched
  generalize hlocate : locator.locate ((Text.pieces content).map Text.stripTerminator)
    (Text.rows fix.replacedCode.toList) fix.line = location at h
  -- An exact and an anchored place differ in the placement only.
  cases hmerge : merge ((((Text.pieces content).map Text.stripTerminator).drop start).take
      (Text.rows fix.replacedCode.toList).length) (Text.rows fix.replacedCode.toList)
      (Text.rows fix.suggestedCode.toList) with
  | none => cases location <;> cases h <;> simp only [hlocate, hmerge]
  | some merged => cases location <;> cases h <;> simp only [hlocate, hmerge, Location.placement]

theorem patched_of_unresolved {locator : Locator} {content : List Char} {fix : Fix}
    (language : Language) (h : (located locator content fix).start? = none) :
    patched locator content fix language = (manualComment content fix language, .manualComment) := by
  rw [located] at h
  unfold patched
  cases hlocate : locator.locate ((Text.pieces content).map Text.stripTerminator)
      (Text.rows fix.replacedCode.toList) fix.line with
  | exact found =>
    rw [hlocate] at h
    cases h
  | anchored found similarity =>
    rw [hlocate] at h
    cases h
  | unresolved => simp only [hlocate]

end Mend.Patch
