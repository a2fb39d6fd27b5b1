import Mend.Diff.Edit

/-!
# Edit scripts by a bounded look ahead

Both lists are walked side by side. Where they differ, the shortest insertion or deletion of at
most three items that brings them back in step is taken, an insertion before a deletion of the same
length; where none does, the two items are taken for a change. The script is cheap and fine for
small local changes, but not always the shortest.
-/

namespace Mend.Diff

variable {α : Type} [DecidableEq α]

/-- How many items are looked at beyond a difference. -/
def reach : Nat := 3

/-- What brings two lists back in step. -/
inductive Resync where
  | inserted (n : Nat)
  | deleted (n : Nat)
  deriving Repr, DecidableEq

/-- The first way back into step that skips `k + 1` items, for the first `k` of the list. The heads
`a` and `b` differ; `old` and `new` follow them. -/
def resync? (a b : α) (old new : List α) : List Nat → Option Resync
  | [] => none
  | k :: ks =>
    if new[k]? = some a then some (.inserted (k + 1))
    else if old[k]? = some b then some (.deleted (k + 1))
    else resync? a b old new ks

theorem resync?_pos {a b : α} {old new : List α} {r : Resync} :
    ∀ {ks : List Nat}, resync? a b old new ks = some r →
      ∃ n, (r = .inserted (n + 1) ∧ n < new.length) ∨ (r = .deleted (n + 1) ∧ n < old.length)
  | [], h => by simp [resync?] at h
  | k :: ks, h => by
    rw [resync?] at h
    split at h
    · next hk =>
      obtain ⟨hk, _⟩ := List.getElem?_eq_some_iff.1 hk
      exact ⟨k, .inl ⟨(Option.some.inj h).symm, hk⟩⟩
    · split at h
      · next hk =>
        obtain ⟨hk, _⟩ := List.getElem?_eq_some_iff.1 hk
        exact ⟨k, .inr ⟨(Option.some.inj h).symm, hk⟩⟩
      · exact resync?_pos h

/-- The edit script of a walk with a bounded look ahead. -/
def lookahead (old new : List α) : List (Edit α) :=
  match old, new with
  | [], new => new.map .insert
  | old, [] => old.map .delete
  | a :: old, b :: new =>
    if a = b then .keep a :: lookahead old new
    else
      match h : resync? a b old new (List.range reach) with
      | some (.inserted n) =>
        ((b :: new).take n).map .insert ++ lookahead (a :: old) ((b :: new).drop n)
      | some (.deleted n) =>
        ((a :: old).take n).map .delete ++ lookahead ((a :: old).drop n) (b :: new)
      | none => .delete a :: .insert b :: lookahead old new
termination_by old.length + new.length
decreasing_by
  · simp only [List.length_cons]; omega
  · obtain ⟨k, ⟨hr, hk⟩ | ⟨hr, _⟩⟩ := resync?_pos h
    · cases hr
      simp only [List.length_cons, List.length_drop]; omega
    · cases hr
  · obtain ⟨k, ⟨hr, _⟩ | ⟨hr, hk⟩⟩ := resync?_pos h
    · cases hr
    · cases hr
      simp only [List.length_cons, List.length_drop]; omega
  · simp only [List.length_cons]; omega

end Mend.Diff
