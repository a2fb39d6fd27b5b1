import Mend.Proofs.Diff.Script
import Mathlib.Data.List.Infix

/-!
# Longest common subsequences

What an edit script keeps is a common subsequence of its two sides, and every item that is not kept
is deleted or inserted. So a script is as short as it can be when what it keeps is as long as it can
be.

`commonLength` gives the length of a longest common subsequence by recursion on both lists
(`length_le_commonLength`, `exists_longestCommon`). Items that two lists have in common at either end
count in full (`commonLength_append_left`, `commonLength_append_right`). The table holds the lengths
for all pairs of suffixes (`rows_eq`), and the walk through it keeps as many items as its corner says
(`length_keeps_tableScript`).
-/

namespace Mend.Diff

variable {α : Type}

/-! ## What a script keeps, deletes and inserts -/

/-- The item that an edit keeps. -/
def Edit.kept? : Edit α → Option α
  | keep a => some a
  | _ => none

/-- The items that a script keeps. -/
def keeps (es : List (Edit α)) : List α := es.filterMap Edit.kept?

/-- How many items a script deletes. -/
def deleted (es : List (Edit α)) : Nat :=
  es.countP fun | .delete _ => true | _ => false

/-- How many items a script inserts. -/
def inserted (es : List (Edit α)) : Nat :=
  es.countP fun | .insert _ => true | _ => false

@[simp] theorem keeps_append (es fs : List (Edit α)) : keeps (es ++ fs) = keeps es ++ keeps fs :=
  List.filterMap_append

@[simp] theorem deleted_append (es fs : List (Edit α)) :
    deleted (es ++ fs) = deleted es + deleted fs :=
  List.countP_append

@[simp] theorem inserted_append (es fs : List (Edit α)) :
    inserted (es ++ fs) = inserted es + inserted fs :=
  List.countP_append

@[simp] theorem keeps_map_keep (as : List α) : keeps (as.map .keep) = as := by
  induction as with
  | nil => rfl
  | cons a as ih => exact congrArg (a :: ·) ih

@[simp] theorem keeps_cons (e : Edit α) (es : List (Edit α)) :
    keeps (e :: es) = e.kept?.toList ++ keeps es := by
  cases e <;> rfl

/-- The old side is what is kept and what is deleted. -/
theorem length_olds (es : List (Edit α)) : (olds es).length = (keeps es).length + deleted es := by
  induction es with
  | nil => rfl
  | cons e es ih => cases e <;> simp [deleted, Edit.kept?] at ih ⊢ <;> omega

/-- The new side is what is kept and what is inserted. -/
theorem length_news (es : List (Edit α)) : (news es).length = (keeps es).length + inserted es := by
  induction es with
  | nil => rfl
  | cons e es ih => cases e <;> simp [inserted, Edit.kept?] at ih ⊢ <;> omega

/-- Each edit keeps, deletes or inserts. -/
theorem length_script (es : List (Edit α)) :
    es.length = (keeps es).length + deleted es + inserted es := by
  induction es with
  | nil => rfl
  | cons e es ih => cases e <;> simp [deleted, inserted, Edit.kept?] at ih ⊢ <;> omega

theorem keeps_sublist_olds (es : List (Edit α)) : (keeps es).Sublist (olds es) := by
  induction es with
  | nil => exact List.Sublist.slnil
  | cons e es ih =>
    cases e with
    | keep a => exact ih.cons_cons a
    | delete a => exact ih.cons a
    | insert a => exact ih

theorem keeps_sublist_news (es : List (Edit α)) : (keeps es).Sublist (news es) := by
  induction es with
  | nil => exact List.Sublist.slnil
  | cons e es ih =>
    cases e with
    | keep a => exact ih.cons_cons a
    | delete a => exact ih
    | insert a => exact ih.cons a

/-! ## The length of a longest common subsequence -/

/-- A common subsequence of two lists, and no other is longer. -/
structure LongestCommon (old new common : List α) : Prop where
  sublist_old : common.Sublist old
  sublist_new : common.Sublist new
  length_le : ∀ s : List α, s.Sublist old → s.Sublist new → s.length ≤ common.length

/-- A subsequence whose head is not the head of the list is one of the tail. -/
theorem sublist_of_head_ne {a c : α} {s l : List α} (hne : c ≠ a)
    (h : (c :: s).Sublist (a :: l)) : (c :: s).Sublist l := by
  cases h with
  | cons _ h => exact h
  | cons_cons _ _ => exact absurd rfl hne

variable [DecidableEq α]

/-- The length of a longest common subsequence. Equal heads are taken; of two different ones at
least one is left out. -/
def commonLength : List α → List α → Nat
  | a :: old, b :: new =>
    if a = b then commonLength old new + 1
    else max (commonLength old (b :: new)) (commonLength (a :: old) new)
  | _, _ => 0
termination_by old new => old.length + new.length

@[simp] theorem commonLength_nil_left (new : List α) : commonLength [] new = 0 := by
  simp [commonLength]

@[simp] theorem commonLength_nil_right (old : List α) : commonLength old [] = 0 := by
  simp [commonLength]

theorem commonLength_cons_self (a : α) (old new : List α) :
    commonLength (a :: old) (a :: new) = commonLength old new + 1 := by
  rw [commonLength, if_pos rfl]

theorem commonLength_cons_of_ne {a b : α} (h : a ≠ b) (old new : List α) :
    commonLength (a :: old) (b :: new) =
      max (commonLength old (b :: new)) (commonLength (a :: old) new) := by
  rw [commonLength, if_neg h]

/-- No common subsequence is longer. -/
theorem length_le_commonLength {old new s : List α} (hold : s.Sublist old)
    (hnew : s.Sublist new) : s.length ≤ commonLength old new := by
  fun_induction commonLength old new generalizing s with
  | case1 old a new ih =>
    -- Equal heads can be taken: the rest of `s` stands in both tails.
    have htail : s.tail.length ≤ commonLength old new := ih hold.tail hnew.tail
    rw [List.length_tail] at htail
    omega
  | case2 a old b new hne ihold ihnew =>
    cases s with
    | nil => exact Nat.zero_le _
    | cons c s =>
      by_cases hc : c = a
      · have hlater := ihnew hold (sublist_of_head_ne (hc ▸ hne) hnew)
        exact Nat.le_trans hlater (Nat.le_max_right _ _)
      · have hlater := ihold (sublist_of_head_ne hc hold) hnew
        exact Nat.le_trans hlater (Nat.le_max_left _ _)
  | case3 old new hcons =>
    cases old with
    | nil => rw [List.sublist_nil.mp hold, List.length_nil]
    | cons a old =>
      cases new with
      | nil => rw [List.sublist_nil.mp hnew, List.length_nil]
      | cons b new => exact (hcons a old b new rfl rfl).elim

/-- Some common subsequence is as long. -/
theorem exists_common (old new : List α) :
    ∃ s : List α, s.Sublist old ∧ s.Sublist new ∧ s.length = commonLength old new := by
  fun_induction commonLength old new with
  | case1 old a new ih =>
    obtain ⟨s, hold, hnew, hlen⟩ := ih
    exact ⟨a :: s, hold.cons_cons a, hnew.cons_cons a, congrArg (· + 1) hlen⟩
  | case2 a old b new hne ihold ihnew =>
    obtain ⟨s, hsold, hsnew, hs⟩ := ihold
    obtain ⟨t, htold, htnew, ht⟩ := ihnew
    rcases Nat.le_total (commonLength old (b :: new)) (commonLength (a :: old) new) with h | h
    · exact ⟨t, htold, htnew.cons b, by rw [Nat.max_eq_right h, ht]⟩
    · exact ⟨s, hsold.cons a, hsnew, by rw [Nat.max_eq_left h, hs]⟩
  | case3 old new _ => exact ⟨[], List.nil_sublist _, List.nil_sublist _, rfl⟩

theorem exists_longestCommon (old new : List α) :
    ∃ s, LongestCommon old new s ∧ s.length = commonLength old new := by
  obtain ⟨s, hold, hnew, hlen⟩ := exists_common old new
  exact ⟨s, ⟨hold, hnew, fun t ht ht' => hlen ▸ length_le_commonLength ht ht'⟩, hlen⟩

/-! ## Common ends -/

theorem commonLength_append_left (front old new : List α) :
    commonLength (front ++ old) (front ++ new) = front.length + commonLength old new := by
  induction front with
  | nil => simp
  | cons a front ih =>
    rw [List.cons_append, List.cons_append, commonLength_cons_self, ih, List.length_cons]
    omega

theorem commonLength_le_reverse (old new : List α) :
    commonLength old new ≤ commonLength old.reverse new.reverse := by
  obtain ⟨s, hold, hnew, hlen⟩ := exists_common old new
  have h := length_le_commonLength hold.reverse hnew.reverse
  rwa [List.length_reverse, hlen] at h

theorem commonLength_reverse (old new : List α) :
    commonLength old.reverse new.reverse = commonLength old new := by
  have h := commonLength_le_reverse old.reverse new.reverse
  rw [List.reverse_reverse, List.reverse_reverse] at h
  exact Nat.le_antisymm h (commonLength_le_reverse old new)

theorem commonLength_append_right (old new back : List α) :
    commonLength (old ++ back) (new ++ back) = commonLength old new + back.length := by
  rw [← commonLength_reverse, List.reverse_append, List.reverse_append, commonLength_append_left,
    commonLength_reverse, List.length_reverse, Nat.add_comm]

/-! ## The table -/

/-- A row follows from the row below it. -/
theorem row_eq (a : α) (old : List α) : ∀ new : List α,
    Table.row a new (new.tails.map (commonLength old)) = new.tails.map (commonLength (a :: old))
  | [] => by simp [Table.row]
  | b :: new => by
    have ih := row_eq a old new
    have hhead (l : List α) : (new.tails.map (commonLength l)).headD 0 = commonLength l new := by
      cases new <;> rfl
    rw [List.tails_cons, List.map_cons, List.map_cons, Table.row, ih, hhead, hhead, commonLength]

/-- The table holds the lengths for all pairs of suffixes. -/
theorem rows_eq (new : List α) : ∀ old : List α,
    Table.rows old new = old.tails.map fun l => new.tails.map (commonLength l)
  | [] => by
    have h : commonLength ([] : List α) = fun _ => 0 := funext commonLength_nil_left
    rw [Table.rows, List.tails, List.map_singleton, h, List.map_const', List.length_tails]
  | a :: old => by
    have hhead : ((old.tails.map fun l => new.tails.map (commonLength l)).headD []) =
        new.tails.map (commonLength old) := by
      cases old <;> rfl
    rw [Table.rows, rows_eq new old, hhead, row_eq, List.tails_cons, List.map_cons]

/-- The table as the walk reads it. -/
def arrays (old new : List α) : List (Array Nat) :=
  old.tails.map fun l => (new.tails.map (commonLength l)).toArray

theorem map_toArray_rows (old new : List α) :
    (Table.rows old new).map List.toArray = arrays old new := by
  rw [rows_eq, List.map_map]
  rfl

theorem headD_arrays (old new : List α) :
    (arrays old new).headD #[] = (new.tails.map (commonLength old)).toArray := by
  cases old <;> rfl

theorem getD_row (l : List α) {all : List α} {j : Nat} (h : j ≤ all.length) :
    (all.tails.map (commonLength l)).toArray.getD j 0 = commonLength l (all.drop j) := by
  have hj : j < all.tails.length := by
    rw [List.length_tails]
    omega
  simp [List.getElem?_eq_getElem hj]

/-- What the walk compares where the heads differ. -/
theorem getD_arrays {all new : List α} {b : α} {j : Nat} (hnew : b :: new = all.drop j) (a : α)
    (old : List α) :
    ((arrays (a :: old) all).headD #[]).getD (j + 1) 0 = commonLength (a :: old) new ∧
      ((arrays (a :: old) all).tail.headD #[]).getD j 0 = commonLength old (b :: new) := by
  have hlen := congrArg List.length hnew
  rw [List.length_cons, List.length_drop] at hlen
  have htail : all.drop (j + 1) = new := by
    rw [← List.tail_drop, ← hnew, List.tail_cons]
  refine ⟨?_, ?_⟩
  · rw [headD_arrays, getD_row _ (by omega), htail]
  · rw [show (arrays (a :: old) all).tail = arrays old all from rfl, headD_arrays,
      getD_row _ (by omega), hnew]

/-- The walk keeps as many items as its corner says. Equal heads are kept; of two different ones
the side is given up on which a longest common subsequence goes on. -/
theorem length_keeps_walk (all old new : List α) (rows : List (Array Nat)) (j : Nat)
    (hrows : rows = arrays old all) (hnew : new = all.drop j) :
    (keeps (Table.walk old new rows j)).length = commonLength old new := by
  fun_induction Table.walk old new rows j with
  | case1 new => simp [keeps, Edit.kept?]
  | case2 a old => simp [keeps, Edit.kept?]
  | case3 a old new rows j ih =>
    have hlater := ih (congrArg List.tail hrows) (by rw [← List.tail_drop, ← hnew, List.tail_cons])
    rw [commonLength_cons_self, ← hlater]
    rfl
  | case4 a old b new rows j hne here below hle ih =>
    have hlater := ih (congrArg List.tail hrows) hnew
    obtain ⟨hhere, hbelow⟩ := getD_arrays hnew a old
    rw [← hrows] at hhere hbelow
    rw [hhere, hbelow] at hle
    rw [commonLength_cons_of_ne hne, Nat.max_eq_left hle, ← hlater]
    rfl
  | case5 a old b new rows j hne here below hlt ih =>
    have hlater := ih hrows (by rw [← List.tail_drop, ← hnew, List.tail_cons])
    obtain ⟨hhere, hbelow⟩ := getD_arrays hnew a old
    rw [← hrows] at hhere hbelow
    rw [hhere, hbelow] at hlt
    rw [commonLength_cons_of_ne hne, Nat.max_eq_right (by omega), ← hlater]
    rfl

theorem length_keeps_tableScript (old new : List α) :
    (keeps (tableScript old new)).length = commonLength old new :=
  length_keeps_walk new old new _ 0 (map_toArray_rows old new) rfl

end Mend.Diff
