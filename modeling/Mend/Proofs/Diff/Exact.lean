import Mend.Diff.Apply
import Mend.Proofs.Diff.Script
import Mend.Proofs.Result

/-!
# Exactly when a diff applies

Hunks may come from anywhere: their lengths need not be those of their lines, and they may overlap,
stand in any order or point past the end. A diff applies exactly if every hunk starts inside the
text and not before the end of the one before it, and its old lines stand there (`Fit`). Then the
old lines of each hunk give way to its new ones (`rewritten`, `applyHunks_eq_ok_iff`). Otherwise the
first hunk of which this is not true gives the error (`Hunk.Fails`, `applyHunks_eq_error_iff`).
-/

namespace Mend.Diff

/-! ## What a hunk shows -/

/-- The lines of the old text that a hunk shows. -/
def Hunk.olds (h : Hunk) : List String := h.lines.filterMap Line.old?

/-- The lines of the new text that a hunk shows. -/
def Hunk.news (h : Hunk) : List String := h.lines.filterMap Line.new?

/-- The number of lines of the old text up to the end of a hunk. -/
def Hunk.oldEnd (h : Hunk) : Nat := h.oldIndex + h.olds.length

/-- Of the lines that are shown, line `k` is the first that does not stand there. -/
def DiffersAt (shown there : List String) (k : Nat) : Prop :=
  k < shown.length ∧ shown.take k = there.take k ∧ shown[k]? ≠ there[k]?

theorem differsAt_commonPrefix : ∀ {shown there : List String}, ¬ shown <+: there →
    DiffersAt shown there (commonPrefix shown there)
  | [], there, h => absurd List.nil_prefix h
  | a :: shown, [], _ => ⟨Nat.succ_pos _, rfl, by simp [commonPrefix]⟩
  | a :: shown, b :: there, h => by
    rw [commonPrefix]
    split
    · next hab =>
      subst hab
      rw [List.cons_prefix_cons, and_iff_right rfl] at h
      obtain ⟨hlt, htake, hne⟩ := differsAt_commonPrefix h
      exact ⟨Nat.succ_lt_succ hlt, by simp [htake], by simpa using hne⟩
    · next hab => exact ⟨Nat.succ_pos _, rfl, by simp [hab]⟩

theorem DiffersAt.not_prefix {shown there : List String} {k : Nat} (h : DiffersAt shown there k) :
    ¬ shown <+: there := by
  rintro ⟨rest, rfl⟩
  exact h.2.2 (List.getElem?_append_left h.1).symm

theorem DiffersAt.le {shown there : List String} {k m : Nat} (hk : DiffersAt shown there k)
    (hm : DiffersAt shown there m) : m ≤ k := by
  by_contra hlt
  have h := congrArg (·[k]?) hm.2.1
  simp only [List.getElem?_take_of_lt (Nat.lt_of_not_le hlt)] at h
  exact hk.2.2 h

theorem DiffersAt.unique {shown there : List String} {k m : Nat} (hk : DiffersAt shown there k)
    (hm : DiffersAt shown there m) : k = m :=
  Nat.le_antisymm (hm.le hk) (hk.le hm)

/-! ## One hunk -/

section

variable {cursor : Nat} {lines : List String} {l : Line} {t : String} (ls : List Line)

/-- A line that is only new needs nothing of the text. -/
theorem applyLines_new (h : l.old? = none) : applyLines cursor lines (l :: ls) =
    (applyLines cursor lines ls).map fun r => (l.new?.toList ++ r.1, r.2) := by
  cases l with
  | context t => cases h
  | removed t => cases h
  | added t =>
    rw [applyLines]
    cases applyLines cursor lines ls <;> rfl

/-- An old line that stands there is taken. -/
theorem applyLines_old (h : l.old? = some t) : applyLines cursor (t :: lines) (l :: ls) =
    (applyLines (cursor + 1) lines ls).map fun r => (l.new?.toList ++ r.1, r.2) := by
  cases l with
  | context t' =>
    obtain rfl := Option.some.inj h
    rw [applyLines, if_pos rfl]
    cases applyLines (cursor + 1) lines ls <;> rfl
  | removed t' =>
    obtain rfl := Option.some.inj h
    rw [applyLines, if_pos rfl]
    cases applyLines (cursor + 1) lines ls <;> rfl
  | added t' => cases h

/-- An old line that does not stand there is the error. -/
theorem applyLines_mismatch (h : l.old? = some t) (hhead : lines.head? ≠ some t) :
    applyLines cursor lines (l :: ls) = .error (.mismatch (cursor + 1)) := by
  cases l with
  | context t' =>
    obtain rfl := Option.some.inj h
    cases lines with
    | nil => rfl
    | cons l' lines => rw [applyLines, if_neg fun e => hhead (congrArg some e)]
  | removed t' =>
    obtain rfl := Option.some.inj h
    cases lines with
    | nil => rfl
    | cons l' lines => rw [applyLines, if_neg fun e => hhead (congrArg some e)]
  | added t' => cases h

end

/-- Where the old lines stand, the new ones come out. -/
theorem applyLines_append (rest : List String) : ∀ (ls : List Line) (cursor : Nat),
    applyLines cursor (ls.filterMap Line.old? ++ rest) ls = .ok (ls.filterMap Line.new?, rest)
  | [], _ => rfl
  | l :: ls, cursor => by
    have hnew : (l :: ls).filterMap Line.new? = l.new?.toList ++ ls.filterMap Line.new? := by
      cases h : l.new? <;> simp [h]
    rw [hnew]
    cases hold : l.old? with
    | none =>
      rw [List.filterMap_cons_none hold, applyLines_new ls hold, applyLines_append rest ls cursor]
      rfl
    | some t =>
      rw [List.filterMap_cons_some hold, List.cons_append, applyLines_old ls hold,
        applyLines_append rest ls (cursor + 1)]
      rfl

/-- Where they do not, the first line that differs is the error. -/
theorem applyLines_differs : ∀ {ls : List Line} {cursor k : Nat} {lines : List String},
    DiffersAt (ls.filterMap Line.old?) lines k →
      applyLines cursor lines ls = .error (.mismatch (cursor + k + 1))
  | [], _, _, _, h => absurd h.1 (Nat.not_lt_zero _)
  | l :: ls, cursor, k, lines, h => by
    cases hold : l.old? with
    | none =>
      rw [List.filterMap_cons_none hold] at h
      rw [applyLines_new ls hold, applyLines_differs h]
      rfl
    | some t =>
      rw [List.filterMap_cons_some hold] at h
      obtain ⟨hlt, htake, hne⟩ := h
      by_cases hhead : lines.head? = some t
      · obtain ⟨rest, rfl⟩ := List.head?_eq_some_iff.mp hhead
        cases k with
        | zero => simp at hne
        | succ k =>
          have hrest : DiffersAt (ls.filterMap Line.old?) rest k := by
            refine ⟨Nat.lt_of_succ_lt_succ hlt, ?_, ?_⟩
            · simpa using htake
            · simpa using hne
          rw [applyLines_old ls hold, applyLines_differs hrest, Nat.add_right_comm cursor 1 k]
          rfl
      · cases k with
        | zero => exact applyLines_mismatch ls hold hhead
        | succ k =>
          cases lines with
          | nil => simp at htake
          | cons l' lines =>
            simp at htake
            exact absurd (congrArg some htake.1.symm) hhead

/-! ## Hunks in order -/

/-- A hunk starts inside the text, and not before line `cursor`. -/
def Hunk.Placed (cursor : Nat) (lines : List String) (h : Hunk) : Prop :=
  cursor ≤ h.oldIndex ∧ h.oldIndex ≤ lines.length

/-- The old lines of a hunk stand where it starts. -/
def Hunk.Stands (lines : List String) (h : Hunk) : Prop :=
  h.olds <+: lines.drop h.oldIndex

/-- Why a hunk does not apply to a text of which `cursor` lines are behind. -/
def Hunk.Fails (cursor : Nat) (lines : List String) (h : Hunk) (e : Error) : Prop :=
  (¬ h.Placed cursor lines ∧ e = .outOfRange h.oldStart) ∨
    (h.Placed cursor lines ∧ ∃ k, DiffersAt h.olds (lines.drop h.oldIndex) k ∧
      e = .mismatch (h.oldIndex + k + 1))

/-- The line at which the last of some hunks ends, or `cursor` without any. -/
def endOf (cursor : Nat) (hunks : List Hunk) : Nat :=
  (hunks.getLast?.map Hunk.oldEnd).getD cursor

/-- Each hunk starts inside the text and not before the end of the one before it, and its old lines
stand there. -/
def Fit (cursor : Nat) (lines : List String) (hunks : List Hunk) : Prop :=
  ∀ before h after, hunks = before ++ h :: after →
    h.Placed (endOf cursor before) lines ∧ h.Stands lines

/-- The text from line `cursor` on with the new lines of each hunk in the place of its old ones. -/
def rewritten (cursor : Nat) (lines : List String) : List Hunk → List String
  | [] => lines.drop cursor
  | h :: hs =>
    (lines.drop cursor).take (h.oldIndex - cursor) ++ h.news ++ rewritten h.oldEnd lines hs

variable {cursor : Nat} {lines : List String} {h : Hunk}

theorem endOf_cons (cursor : Nat) (h : Hunk) (hs : List Hunk) :
    endOf cursor (h :: hs) = endOf h.oldEnd hs := by
  cases hs with
  | nil => rfl
  | cons k hs => simp [endOf, List.getLast?_cons]

theorem fit_nil (cursor : Nat) (lines : List String) : Fit cursor lines [] :=
  fun before h after hs => by simp at hs

theorem fit_cons {hs : List Hunk} :
    Fit cursor lines (h :: hs) ↔
      h.Placed cursor lines ∧ h.Stands lines ∧ Fit h.oldEnd lines hs := by
  constructor
  · intro hfit
    obtain ⟨hplaced, hstands⟩ := hfit [] h hs rfl
    refine ⟨hplaced, hstands, fun before k after hs' => ?_⟩
    have hlater := hfit (h :: before) k after (congrArg (h :: ·) hs')
    rwa [endOf_cons] at hlater
  · rintro ⟨hplaced, hstands, hfit⟩ before k after hs'
    cases before with
    | nil =>
      obtain ⟨rfl, -⟩ := List.cons.inj hs'
      exact ⟨hplaced, hstands⟩
    | cons h' before =>
      obtain ⟨rfl, hlater⟩ := List.cons.inj hs'
      rw [endOf_cons]
      exact hfit before k after hlater

/-- A hunk that starts after the lines `before` and whose old lines stand there. -/
theorem applyHunks_append (cursor : Nat) {before : List String}
    (hindex : h.oldIndex = cursor + before.length) (rest : List String) (hs : List Hunk) :
    applyHunks cursor (before ++ (h.olds ++ rest)) (h :: hs) =
      (applyHunks h.oldEnd rest hs).map (before ++ h.news ++ ·) := by
  have happly : applyLines (cursor + before.length) (h.olds ++ rest) h.lines = .ok (h.news, rest) :=
    applyLines_append rest h.lines (cursor + before.length)
  have hinside : ¬ (cursor + before.length < cursor ∨
      cursor + (before.length + (h.olds.length + rest.length)) < cursor + before.length) := by
    omega
  have hbehind : cursor + (before.length + (h.olds.length + rest.length) - rest.length) =
      h.oldEnd := by
    rw [Hunk.oldEnd]
    omega
  simp only [applyHunks, hindex, List.length_append, Bool.or_eq_true, decide_eq_true_eq,
    if_neg hinside, Nat.add_sub_cancel_left, List.drop_left, List.take_left, happly,
    bind, Except.bind, hbehind]
  cases applyHunks h.oldEnd rest hs <;> rfl

/-- A text goes on after the old lines of a hunk that stands in it. -/
theorem Hunk.Stands.olds_append (hstands : h.Stands lines) :
    h.olds ++ lines.drop h.oldEnd = lines.drop h.oldIndex := by
  obtain ⟨rest, hrest⟩ := hstands
  rw [Hunk.oldEnd, ← List.drop_drop, ← hrest, List.drop_left]

/-- What is left of a text is what comes before a hunk that stands in it, its old lines and what
comes after them. -/
theorem Hunk.Stands.drop_eq (hplaced : h.Placed cursor lines) (hstands : h.Stands lines) :
    (lines.drop cursor).take (h.oldIndex - cursor) ++ (h.olds ++ lines.drop h.oldEnd) =
      lines.drop cursor := by
  have hdrop : (lines.drop cursor).drop (h.oldIndex - cursor) = lines.drop h.oldIndex := by
    rw [List.drop_drop, Nat.add_sub_cancel' hplaced.1]
  rw [hstands.olds_append, ← hdrop, List.take_append_drop]

theorem Hunk.Stands.applyLines (hstands : h.Stands lines) :
    applyLines h.oldIndex (lines.drop h.oldIndex) h.lines =
      .ok (h.news, lines.drop h.oldEnd) := by
  rw [← hstands.olds_append]
  exact applyLines_append (lines.drop h.oldEnd) h.lines h.oldIndex

theorem applyHunks_stands (hplaced : h.Placed cursor lines) (hstands : h.Stands lines)
    (hs : List Hunk) :
    applyHunks cursor (lines.drop cursor) (h :: hs) =
      (applyHunks h.oldEnd (lines.drop h.oldEnd) hs).map
        ((lines.drop cursor).take (h.oldIndex - cursor) ++ h.news ++ ·) := by
  have hindex : h.oldIndex =
      cursor + ((lines.drop cursor).take (h.oldIndex - cursor)).length := by
    obtain ⟨hcursor, hinside⟩ := hplaced
    rw [List.length_take, List.length_drop]
    omega
  have happly := applyHunks_append cursor hindex (lines.drop h.oldEnd) hs
  rwa [hstands.drop_eq hplaced] at happly

/-- A hunk that does not apply ends with its error. -/
theorem applyHunks_fails (hcursor : cursor ≤ lines.length) {e : Error}
    (hfails : h.Fails cursor lines e) (hs : List Hunk) :
    applyHunks cursor (lines.drop cursor) (h :: hs) = .error e := by
  have hguard : (h.oldIndex < cursor || cursor + (lines.drop cursor).length < h.oldIndex) = true ↔
      ¬ h.Placed cursor lines := by
    rw [Bool.or_eq_true, decide_eq_true_eq, decide_eq_true_eq, List.length_drop, Hunk.Placed]
    omega
  rcases hfails with ⟨hmisplaced, rfl⟩ | ⟨hplaced, k, hdiffers, rfl⟩
  · rw [applyHunks]
    exact if_pos (hguard.mpr hmisplaced)
  · have hdrop : (lines.drop cursor).drop (h.oldIndex - cursor) = lines.drop h.oldIndex := by
      rw [List.drop_drop, Nat.add_sub_cancel' hplaced.1]
    rw [applyHunks]
    simp only [if_neg (fun hg => hguard.mp hg hplaced), hdrop, applyLines_differs hdiffers]
    rfl

/-- A hunk stands where it says, or there is a reason why it does not apply. -/
theorem stands_or_fails (cursor : Nat) (lines : List String) (h : Hunk) :
    (h.Placed cursor lines ∧ h.Stands lines) ∨ ∃ e, h.Fails cursor lines e := by
  by_cases hplaced : h.Placed cursor lines
  · by_cases hstands : h.Stands lines
    · exact Or.inl ⟨hplaced, hstands⟩
    · exact Or.inr ⟨_, Or.inr ⟨hplaced, _, differsAt_commonPrefix hstands, rfl⟩⟩
  · exact Or.inr ⟨_, Or.inl ⟨hplaced, rfl⟩⟩

theorem Hunk.Fails.not_stands {e : Error} (hfails : h.Fails cursor lines e) :
    ¬ (h.Placed cursor lines ∧ h.Stands lines) := by
  rintro ⟨hplaced, hstands⟩
  rcases hfails with ⟨hmisplaced, -⟩ | ⟨-, k, hdiffers, -⟩
  · exact hmisplaced hplaced
  · exact hdiffers.not_prefix hstands

theorem Hunk.Fails.unique {e e' : Error} (he : h.Fails cursor lines e)
    (he' : h.Fails cursor lines e') : e = e' := by
  rcases he with ⟨hmisplaced, rfl⟩ | ⟨hplaced, k, hk, rfl⟩
  · rcases he' with ⟨-, rfl⟩ | ⟨hplaced, -⟩
    · rfl
    · exact absurd hplaced hmisplaced
  · rcases he' with ⟨hmisplaced, -⟩ | ⟨-, m, hm, rfl⟩
    · exact absurd hplaced hmisplaced
    · rw [hk.unique hm]

theorem Hunk.Stands.oldEnd_le (hplaced : h.Placed cursor lines) (hstands : h.Stands lines) :
    h.oldEnd ≤ lines.length := by
  have hle := hstands.length_le
  rw [List.length_drop] at hle
  have hinside := hplaced.2
  rw [Hunk.oldEnd]
  omega

/-- Hunks apply exactly if they fit. -/
theorem applyHunks_eq_ok_iff : ∀ {hunks : List Hunk} {cursor : Nat} {out : List String},
    cursor ≤ lines.length → (applyHunks cursor (lines.drop cursor) hunks = .ok out ↔
      Fit cursor lines hunks ∧ out = rewritten cursor lines hunks)
  | [], cursor, out, _ => by
    rw [applyHunks, rewritten, Except.ok.injEq, and_iff_right (fit_nil cursor lines), eq_comm]
  | h :: hs, cursor, out, hcursor => by
    rw [fit_cons, rewritten]
    rcases stands_or_fails cursor lines h with ⟨hplaced, hstands⟩ | ⟨e, hfails⟩
    · have hend := hstands.oldEnd_le hplaced
      rw [applyHunks_stands hplaced hstands]
      constructor
      · intro hok
        obtain ⟨after, hafter, rfl⟩ := exists_of_map hok
        obtain ⟨hfit, rfl⟩ := (applyHunks_eq_ok_iff hend).mp hafter
        exact ⟨⟨hplaced, hstands, hfit⟩, rfl⟩
      · rintro ⟨⟨-, -, hfit⟩, rfl⟩
        rw [(applyHunks_eq_ok_iff hend).mpr ⟨hfit, rfl⟩]
        rfl
    · rw [applyHunks_fails hcursor hfails]
      constructor
      · intro hok
        cases hok
      · rintro ⟨⟨hplaced, hstands, -⟩, -⟩
        exact absurd ⟨hplaced, hstands⟩ hfails.not_stands

/-- Hunks fail with the error of the first that does not apply. -/
theorem applyHunks_eq_error_iff : ∀ {hunks : List Hunk} {cursor : Nat} {e : Error},
    cursor ≤ lines.length → (applyHunks cursor (lines.drop cursor) hunks = .error e ↔
      ∃ before h after, hunks = before ++ h :: after ∧ Fit cursor lines before ∧
        h.Fails (endOf cursor before) lines e)
  | [], cursor, e, _ => by simp [applyHunks]
  | h :: hs, cursor, e, hcursor => by
    rcases stands_or_fails cursor lines h with ⟨hplaced, hstands⟩ | ⟨e', hfails⟩
    · rw [applyHunks_stands hplaced hstands, map_eq_error,
        applyHunks_eq_error_iff (hstands.oldEnd_le hplaced)]
      constructor
      · rintro ⟨before, k, after, rfl, hfit, hfails⟩
        exact ⟨h :: before, k, after, rfl, fit_cons.mpr ⟨hplaced, hstands, hfit⟩,
          by rwa [endOf_cons]⟩
      · rintro ⟨before, k, after, hs', hfit, hfails⟩
        cases before with
        | nil =>
          obtain ⟨rfl, -⟩ := List.cons.inj hs'
          exact absurd ⟨hplaced, hstands⟩ hfails.not_stands
        | cons h' before =>
          obtain ⟨rfl, hlater⟩ := List.cons.inj hs'
          rw [endOf_cons] at hfails
          exact ⟨before, k, after, hlater, (fit_cons.mp hfit).2.2, hfails⟩
    · rw [applyHunks_fails hcursor hfails, Except.error.injEq]
      constructor
      · rintro rfl
        exact ⟨[], h, hs, rfl, fit_nil cursor lines, hfails⟩
      · rintro ⟨before, k, after, hs', hfit, hfails'⟩
        cases before with
        | nil =>
          obtain ⟨rfl, -⟩ := List.cons.inj hs'
          exact hfails.unique hfails'
        | cons h' before =>
          obtain ⟨rfl, -⟩ := List.cons.inj hs'
          obtain ⟨hplaced, hstands, -⟩ := fit_cons.mp hfit
          exact absurd ⟨hplaced, hstands⟩ hfails.not_stands

end Mend.Diff
