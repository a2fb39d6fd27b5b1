import Mend.Proofs.Diff.Cut
import Mend.Proofs.Diff.Subsequence

/-!
# The shortest script is shortest

What two lists have in common at their ends belongs to a longest common subsequence, and the walk
through the table keeps one of what lies between. So a script by way of the table keeps as many
items as any script can (`length_keeps_shortest`), and neither deletes nor inserts more than any
other.

A diff has the additions and removals of its script, however it is cut into hunks
(`stats_hunksOf`). The other way round, hunks that lead from one list of lines to another are a
script between them (`exists_script_of_applyHunks`), so that the diff is as small as a diff can be
(`shortest_minimal`).
-/

namespace Mend.Diff

/-! ## The script by way of the table -/

section

variable {α : Type} [DecidableEq α]

/-- What lies between the items that two lists have in common at the start, and those of the rest at
the end. -/
def middles (old new : List α) : List α × List α :=
  let front := commonPrefix old new
  let oldRest := old.drop front
  let newRest := new.drop front
  let back := commonPrefix oldRest.reverse newRest.reverse
  (oldRest.take (oldRest.length - back), newRest.take (newRest.length - back))

/-- The table of what lies between is not too large. -/
def InTable (old new : List α) : Prop :=
  ((middles old new).1.length + 1) * ((middles old new).2.length + 1) ≤ tableLimit

instance (old new : List α) : Decidable (InTable old new) :=
  inferInstanceAs (Decidable (_ ≤ _))

/-- The script keeps the common ends and takes the walk through the table between them. -/
theorem shortest_eq {old new : List α} (htable : InTable old new) :
    ∃ front back : List α, shortest old new =
      front.map .keep ++ tableScript (middles old new).1 (middles old new).2 ++
        back.map .keep := by
  have hguard := Nat.not_lt.mpr htable
  simp only [middles] at hguard ⊢
  simp only [shortest, if_neg hguard]
  exact ⟨_, _, rfl⟩

/-- A script by way of the table keeps as many items as a longest common subsequence has. -/
theorem length_keeps_shortest {old new : List α} (htable : InTable old new) :
    (keeps (shortest old new)).length = commonLength old new := by
  obtain ⟨front, back, heq⟩ := shortest_eq htable
  have hold := olds_shortest old new
  have hnew := news_shortest old new
  rw [heq] at hold hnew ⊢
  simp only [tableScript, olds_append, olds_map_keep, olds_walk] at hold
  simp only [tableScript, news_append, news_map_keep, news_walk] at hnew
  have hcommon : commonLength old new =
      front.length + commonLength (middles old new).1 (middles old new).2 + back.length := by
    rw [← commonLength_append_left, ← commonLength_append_right, hold, hnew]
  rw [hcommon, keeps_append, keeps_append, keeps_map_keep, keeps_map_keep, List.length_append,
    List.length_append, length_keeps_tableScript]

/-- No script keeps more items than a longest common subsequence has. -/
theorem length_keeps_le (es : List (Edit α)) :
    (keeps es).length ≤ commonLength (olds es) (news es) :=
  length_le_commonLength (keeps_sublist_olds es) (keeps_sublist_news es)

end

/-! ## The additions and removals of a diff -/

/-- The line as an edit. -/
def Line.edit : Line → Edit String
  | context t => .keep t
  | removed t => .delete t
  | added t => .insert t

/-- The lines of some hunks as a script. -/
def scriptOf (hunks : List Hunk) : List (Edit String) :=
  (hunks.flatMap Hunk.lines).map Line.edit

theorem scriptOf_cons (h : Hunk) (hs : List Hunk) :
    scriptOf (h :: hs) = h.lines.map Line.edit ++ scriptOf hs := by
  rw [scriptOf, List.flatMap_cons, List.map_append, scriptOf]

theorem olds_map_edit (ls : List Line) : olds (ls.map Line.edit) = ls.filterMap Line.old? := by
  rw [olds, List.filterMap_map]
  exact congrArg (List.filterMap · ls) (funext fun l => by cases l <;> rfl)

theorem news_map_edit (ls : List Line) : news (ls.map Line.edit) = ls.filterMap Line.new? := by
  rw [news, List.filterMap_map]
  exact congrArg (List.filterMap · ls) (funext fun l => by cases l <;> rfl)

/-- A diff adds and removes what its lines insert and delete. -/
theorem stats_eq (hunks : List Hunk) :
    stats hunks = (inserted (scriptOf hunks), deleted (scriptOf hunks)) := by
  rw [stats, inserted, deleted, scriptOf, List.countP_map, List.countP_map]
  refine Prod.ext ?_ ?_
  · exact congrArg (List.countP · _) (funext fun l => by cases l <;> rfl)
  · exact congrArg (List.countP · _) (funext fun l => by cases l <;> rfl)

/-- A hunk puts the edits of each run of changes in another order. -/
theorem perm_hunkLines : ∀ (edits : List (Edit String)) (pending : List Line),
    ((hunkLines pending edits).map Line.edit).Perm (pending.map Line.edit ++ edits)
  | [], pending => by
    rw [hunkLines, List.append_nil]
  | .keep t :: edits, pending => by
    have ih := perm_hunkLines edits []
    rw [hunkLines, List.map_append, List.map_cons]
    exact (ih.cons (Edit.keep t)).append_left _
  | .delete t :: edits, pending => by
    have ih := perm_hunkLines edits pending
    rw [hunkLines, List.map_cons]
    exact (ih.cons (Edit.delete t)).trans List.perm_middle.symm
  | .insert t :: edits, pending => by
    have ih := perm_hunkLines edits (pending ++ [.added t])
    rw [List.map_append, List.append_assoc] at ih
    rw [hunkLines]
    exact ih

theorem Quiet.counts {edits : List (Edit String)} (h : Quiet edits) :
    inserted edits = 0 ∧ deleted edits = 0 := by
  have hall := length_script edits
  have hold := length_olds edits
  have hnew := length_news edits
  rw [news_eq_olds_of_keep h] at hnew
  rw [length_olds_of_keep h] at hold hnew
  omega

/-- What is left out of the hunks adds and removes nothing. -/
theorem Cut.counts {context gap o n : Nat} {edits : List (Edit String)} {hunks : List Hunk}
    (hcut : Cut context gap o n edits hunks) :
    inserted (scriptOf hunks) = inserted edits ∧ deleted (scriptOf hunks) = deleted edits := by
  induction hcut with
  | quiet hquiet =>
    obtain ⟨hinserted, hdeleted⟩ := hquiet.counts
    exact ⟨hinserted.symm, hdeleted.symm⟩
  | @hunk gap o n outside run later hunks hgap hquiet hrun hlater ih =>
    obtain ⟨hinserted, hdeleted⟩ := hquiet.counts
    have hperm : ((hunkLines [] run).map Line.edit).Perm run := perm_hunkLines run []
    rw [scriptOf_cons]
    simp only [inserted_append, deleted_append, hinserted, hdeleted, ih, Nat.zero_add]
    exact ⟨congrArg (· + inserted later) (hperm.countP_eq _),
      congrArg (· + deleted later) (hperm.countP_eq _)⟩

/-- A diff has the additions and removals of its script, whatever the context. -/
theorem stats_hunksOf (context : Nat) (edits : List (Edit String)) :
    stats (hunksOf context edits) = (inserted edits, deleted edits) := by
  obtain ⟨hinserted, hdeleted⟩ := (cut_hunksOf context edits).counts
  rw [stats_eq, hinserted, hdeleted]

/-- Hunks that lead from one list of lines to another are a script between them. -/
theorem exists_script_of_applyHunks {lines : List String} :
    ∀ {hunks : List Hunk} {cursor : Nat} {out : List String}, cursor ≤ lines.length →
      applyHunks cursor (lines.drop cursor) hunks = .ok out →
        ∃ edits, olds edits = lines.drop cursor ∧ news edits = out ∧
          stats hunks = (inserted edits, deleted edits)
  | [], cursor, out, _, hok => by
    obtain rfl := Except.ok.inj hok
    obtain ⟨hinserted, hdeleted⟩ := (quiet_map_keep (lines.drop cursor)).counts
    refine ⟨(lines.drop cursor).map .keep, olds_map_keep _, news_map_keep _, ?_⟩
    rw [hinserted, hdeleted]
    rfl
  | h :: hs, cursor, out, hcursor, hok => by
    rcases stands_or_fails cursor lines h with ⟨hplaced, hstands⟩ | ⟨e, hfails⟩
    · rw [applyHunks_stands hplaced hstands] at hok
      obtain ⟨after, hafter, rfl⟩ := exists_of_map hok
      obtain ⟨edits, hold, rfl, hstats⟩ :=
        exists_script_of_applyHunks (hstands.oldEnd_le hplaced) hafter
      refine ⟨((lines.drop cursor).take (h.oldIndex - cursor)).map .keep ++
        h.lines.map Line.edit ++ edits, ?_, ?_, ?_⟩
      · rw [olds_append, olds_append, olds_map_keep, olds_map_edit, hold, List.append_assoc]
        exact hstands.drop_eq hplaced
      · rw [news_append, news_append, news_map_keep, news_map_edit]
        rfl
      · obtain ⟨hinserted, hdeleted⟩ :=
          (quiet_map_keep ((lines.drop cursor).take (h.oldIndex - cursor))).counts
        rw [stats_eq, Prod.mk.injEq] at hstats
        simp only [stats_eq, scriptOf_cons, inserted_append, deleted_append, hinserted, hdeleted,
          hstats, Nat.zero_add]
    · rw [applyHunks_fails hcursor hfails] at hok
      cases hok

/-! ## Shortest -/

/-- Where the table is not too large, the script leads from the old list to the new one, and it
deletes and inserts all but a longest common subsequence. No other script deletes or inserts fewer
items, none is shorter, and no diff that leads from the old lines to the new ones adds or removes
fewer lines than the difference between the texts. -/
theorem shortest_minimal {old new : List String} (htable : InTable old new) :
    olds (shortest old new) = old ∧ news (shortest old new) = new ∧
    ∃ common, LongestCommon old new common ∧
      deleted (shortest old new) + inserted (shortest old new) + 2 * common.length =
        old.length + new.length ∧
      (∀ edits, olds edits = old → news edits = new →
        deleted (shortest old new) ≤ deleted edits ∧
        inserted (shortest old new) ≤ inserted edits ∧
        (shortest old new).length ≤ edits.length) ∧
      ∀ context current modified, Text.linesKept current = old → Text.linesKept modified = new →
        stats (between ⟨.lcs, context⟩ current modified) =
          (new.length - common.length, old.length - common.length) ∧
        ∀ hunks, applyHunks 0 old hunks = .ok new →
          (stats (between ⟨.lcs, context⟩ current modified)).1 ≤ (stats hunks).1 ∧
          (stats (between ⟨.lcs, context⟩ current modified)).2 ≤ (stats hunks).2 := by
  obtain ⟨common, hcommon, hlen⟩ := exists_longestCommon old new
  have hkeeps := length_keeps_shortest htable
  have hold := length_olds (shortest old new)
  have hnew := length_news (shortest old new)
  have hall := length_script (shortest old new)
  rw [olds_shortest, hkeeps] at hold
  rw [news_shortest, hkeeps] at hnew
  rw [hkeeps] at hall
  -- Another script keeps no more items of the same lists, so it gives up as many at least.
  have hleast : ∀ edits, olds edits = old → news edits = new →
      deleted (shortest old new) ≤ deleted edits ∧ inserted (shortest old new) ≤ inserted edits ∧
        (shortest old new).length ≤ edits.length := by
    rintro edits rfl rfl
    have hle := length_keeps_le edits
    have hold' := length_olds edits
    have hnew' := length_news edits
    have hall' := length_script edits
    omega
  refine ⟨olds_shortest old new, news_shortest old new, common, hcommon, by omega, hleast, ?_⟩
  rintro context current modified rfl rfl
  have hstats : stats (between ⟨.lcs, context⟩ current modified) =
      (inserted (shortest (Text.linesKept current) (Text.linesKept modified)),
        deleted (shortest (Text.linesKept current) (Text.linesKept modified))) :=
    stats_hunksOf context _
  refine ⟨?_, fun hunks happly => ?_⟩
  · rw [hstats, Prod.mk.injEq]
    omega
  · obtain ⟨edits, hedits, hedits', hcounts⟩ :=
      exists_script_of_applyHunks (Nat.zero_le _) happly
    obtain ⟨hdeleted, hinserted, -⟩ := hleast edits hedits hedits'
    rw [hstats, hcounts]
    exact ⟨hinserted, hdeleted⟩

/-- A line that moves costs one removal and one addition, and no script does with less. -/
theorem shortest_minimal_moved :
    InTable ["a\n", "b\n", "c\n"] ["c\n", "a\n", "b\n"] ∧
    shortest ["a\n", "b\n", "c\n"] ["c\n", "a\n", "b\n"] =
      [.insert "c\n", .keep "a\n", .keep "b\n", .delete "c\n"] ∧
    ∀ edits, olds edits = ["a\n", "b\n", "c\n"] → news edits = ["c\n", "a\n", "b\n"] →
      1 ≤ deleted edits ∧ 1 ≤ inserted edits ∧ 4 ≤ edits.length := by
  have htable : InTable ["a\n", "b\n", "c\n"] ["c\n", "a\n", "b\n"] := by decide
  have hscript : shortest ["a\n", "b\n", "c\n"] ["c\n", "a\n", "b\n"] =
      [.insert "c\n", .keep "a\n", .keep "b\n", .delete "c\n"] := by
    simp [shortest, commonPrefix, tableLimit, tableScript, Table.walk, Table.rows, Table.row]
  obtain ⟨-, -, common, -, -, hleast, -⟩ := shortest_minimal htable
  rw [hscript] at hleast
  exact ⟨htable, hscript, hleast⟩

end Mend.Diff
