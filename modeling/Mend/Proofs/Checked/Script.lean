import Mend.Proofs.Checked.Basic
import Mend.Proofs.Diff.Subsequence

/-!
# Edit scripts, with every access checked

Here both lists stay as they are, and two cursors run over them. The table is one list, row after
row, and cell `i * width + j` belongs to the suffixes of the two lists from `i` and from `j` on. It
is filled from its end (`Filled`, `fillCell_eq`), and both the filling and the walk back read only
cells that are there. So nothing is refused, and the scripts are those of the unchecked forms
(`lookahead_eq`, `walk_eq`, `shortest_eq`).
-/

namespace Mend

namespace Diff

variable {α : Type} [DecidableEq α] {a b : α} {old new : List α}

/-! ## What a walk does next -/

theorem lookahead_inserted (hne : a ≠ b) {n : Nat}
    (h : resync? a b old new (List.range reach) = some (.inserted n)) :
    lookahead (a :: old) (b :: new) =
      ((b :: new).take n).map .insert ++ lookahead (a :: old) ((b :: new).drop n) := by
  rw [lookahead, if_neg hne]
  split <;> simp_all

theorem lookahead_deleted (hne : a ≠ b) {n : Nat}
    (h : resync? a b old new (List.range reach) = some (.deleted n)) :
    lookahead (a :: old) (b :: new) =
      ((a :: old).take n).map .delete ++ lookahead ((a :: old).drop n) (b :: new) := by
  rw [lookahead, if_neg hne]
  split <;> simp_all

theorem lookahead_changed (hne : a ≠ b)
    (h : resync? a b old new (List.range reach) = none) :
    lookahead (a :: old) (b :: new) =
      .delete a :: .insert b :: lookahead old new := by
  rw [lookahead, if_neg hne]
  split <;> simp_all

/-- Where one list has come to its end, what is left of the other is deleted or inserted. -/
theorem lookahead_ended (h : old = [] ∨ new = []) :
    lookahead old new = old.map .delete ++ new.map .insert := by
  rcases h with rfl | rfl
  · rw [lookahead]
    rfl
  · cases old <;> simp [lookahead]

theorem walk_ended (h : old = [] ∨ new = []) (rows : List (Array Nat)) (j : Nat) :
    Table.walk old new rows j = old.map .delete ++ new.map .insert := by
  rcases h with rfl | rfl
  · rw [Table.walk]
    rfl
  · cases old <;> simp [Table.walk]

theorem commonPrefix_le : ∀ old new : List α,
    commonPrefix old new ≤ old.length ∧ commonPrefix old new ≤ new.length
  | [], new => by simp [commonPrefix]
  | a :: old, [] => by simp [commonPrefix]
  | a :: old, b :: new => by
    obtain ⟨hold, hnew⟩ := commonPrefix_le old new
    rw [commonPrefix, List.length_cons, List.length_cons]
    split <;> omega

end Diff

namespace Checked

open Diff (Edit commonLength)
open Text (BadOffset)

variable {α : Type} [DecidableEq α]

/-! ## The bounded look ahead -/

/-- The script of a walk with a bounded look ahead, from two cursors on. -/
def lookahead (old new : List α) (i j : Nat) : Except BadOffset (List (Edit α)) :=
  if hinside : i < old.length ∧ j < new.length then do
    let a ← itemAt i old
    let b ← itemAt j new
    if a = b then
      let later ← lookahead old new (i + 1) (j + 1)
      pure (.keep a :: later)
    else
      match hresync : Diff.resync? a b (old.drop (i + 1)) (new.drop (j + 1))
          (List.range Diff.reach) with
      | some (.inserted n) =>
        let part ← partOf j (j + n) new
        let later ← lookahead old new i (j + n)
        pure (part.map .insert ++ later)
      | some (.deleted n) =>
        let part ← partOf i (i + n) old
        let later ← lookahead old new (i + n) j
        pure (part.map .delete ++ later)
      | none =>
        let later ← lookahead old new (i + 1) (j + 1)
        pure (.delete a :: .insert b :: later)
  else do
    let gone ← restOf i old
    let come ← restOf j new
    pure (gone.map .delete ++ come.map .insert)
termination_by (old.length - i) + (new.length - j)
decreasing_by
  · omega
  · obtain ⟨k, ⟨hr, -⟩ | ⟨hr, -⟩⟩ := Diff.resync?_pos hresync <;> cases hr
    omega
  · obtain ⟨k, ⟨hr, -⟩ | ⟨hr, -⟩⟩ := Diff.resync?_pos hresync <;> cases hr
    omega
  · omega

theorem lookahead_eq (old new : List α) (i j : Nat) (hi : i ≤ old.length) (hj : j ≤ new.length) :
    lookahead old new i j = .ok (Diff.lookahead (old.drop i) (new.drop j)) := by
  rw [lookahead]
  by_cases hinside : i < old.length ∧ j < new.length
  · obtain ⟨hi, hj⟩ := hinside
    have hold := List.drop_eq_getElem_cons hi
    have hnew := List.drop_eq_getElem_cons hj
    simp only [dif_pos (And.intro hi hj), itemAt_eq (List.getElem?_eq_getElem hi),
      itemAt_eq (List.getElem?_eq_getElem hj), bind, Except.bind]
    rw [hold, hnew]
    split
    · next heq =>
      rw [lookahead_eq old new (i + 1) (j + 1) hi hj, Diff.lookahead, if_pos heq]
      rfl
    · next hne =>
      split
      · next n hresync =>
        obtain ⟨k, ⟨hn, hk⟩ | ⟨hn, -⟩⟩ := Diff.resync?_pos hresync <;> cases hn
        rw [List.length_drop] at hk
        rw [Diff.lookahead_inserted hne hresync, ← hold, ← hnew, List.drop_drop,
          partOf_eq (by omega) (by omega), lookahead_eq old new i (j + (k + 1)) (by omega)
          (by omega), Nat.add_sub_cancel_left]
        rfl
      · next n hresync =>
        obtain ⟨k, ⟨hn, -⟩ | ⟨hn, hk⟩⟩ := Diff.resync?_pos hresync <;> cases hn
        rw [List.length_drop] at hk
        rw [Diff.lookahead_deleted hne hresync, ← hold, ← hnew, List.drop_drop,
          partOf_eq (by omega) (by omega), lookahead_eq old new (i + (k + 1)) j (by omega)
          (by omega), Nat.add_sub_cancel_left]
        rfl
      · next hresync =>
        rw [Diff.lookahead_changed hne hresync, lookahead_eq old new (i + 1) (j + 1) hi hj]
        rfl
  · have hended : old.drop i = [] ∨ new.drop j = [] := by
      rw [List.drop_eq_nil_iff, List.drop_eq_nil_iff]
      omega
    rw [dif_neg hinside, restOf_eq hi, restOf_eq hj, Diff.lookahead_ended hended]
    rfl
termination_by (old.length - i) + (new.length - j)
decreasing_by
  all_goals omega

/-! ## The table -/

section

variable (old new : List α)

/-- Fill the cell of the suffixes from `i` and from `j` on. -/
def fillCell (table : List Nat) (i j : Nat) : Except BadOffset (List Nat) := do
  let width := new.length + 1
  let a ← itemAt i old
  let b ← itemAt j new
  let cell ←
    (if a = b then do
      let across ← itemAt ((i + 1) * width + j + 1) table
      pure (across + 1)
    else do
      let below ← itemAt ((i + 1) * width + j) table
      let right ← itemAt (i * width + j + 1) table
      pure (max below right))
  setAt (i * width + j) cell table

/-- Fill the cells of row `i` before column `j`, from the last one back. -/
def fillRow (i : Nat) : Nat → List Nat → Except BadOffset (List Nat)
  | 0, table => .ok table
  | j + 1, table => do
    let table ← fillCell old new table i j
    fillRow i j table

/-- Fill the rows before row `i`, from the last one back. -/
def fillRows : Nat → List Nat → Except BadOffset (List Nat)
  | 0, table => .ok table
  | i + 1, table => do
    let table ← fillRow old new i new.length table
    fillRows i table

/-- Walk a table from two cursors on. Of two equally good steps the deletion is taken. -/
def walk (table : List Nat) (i j : Nat) : Except BadOffset (List (Edit α)) :=
  if i < old.length ∧ j < new.length then do
    let width := new.length + 1
    let a ← itemAt i old
    let b ← itemAt j new
    if a = b then
      let later ← walk table (i + 1) (j + 1)
      pure (.keep a :: later)
    else
      let below ← itemAt ((i + 1) * width + j) table
      let right ← itemAt (i * width + j + 1) table
      if right ≤ below then
        let later ← walk table (i + 1) j
        pure (.delete a :: later)
      else
        let later ← walk table i (j + 1)
        pure (.insert b :: later)
  else do
    let gone ← restOf i old
    let come ← restOf j new
    pure (gone.map .delete ++ come.map .insert)
termination_by (old.length - i) + (new.length - j)

/-- The script of a walk through the whole table. -/
def tableScript : Except BadOffset (List (Edit α)) := do
  let table ← fillRows old new old.length
    (List.replicate ((old.length + 1) * (new.length + 1)) 0)
  walk old new table 0 0

/-- The script of what lies between common ends. -/
def middleScript : Except BadOffset (List (Edit α)) :=
  if Diff.tableLimit < (old.length + 1) * (new.length + 1) then lookahead old new 0 0
  else tableScript old new

/-- A shortest edit script, unless the table would be too large. -/
def shortest : Except BadOffset (List (Edit α)) := do
  let front := Diff.commonPrefix old new
  let kept ← frontOf front old
  let oldRest ← restOf front old
  let newRest ← restOf front new
  let back := Diff.commonPrefix oldRest.reverse newRest.reverse
  let oldStop ← stepBack back old.length
  let newStop ← stepBack back new.length
  let oldMiddle ← partOf front oldStop old
  let newMiddle ← partOf front newStop new
  let middle ← middleScript oldMiddle newMiddle
  let last ← restOf oldStop old
  pure (kept.map .keep ++ middle ++ last.map .keep)

/-! ## The table is filled -/

/-- From cell `(i, j)` on, and in its last column, the table holds the lengths of longest common
subsequences. -/
structure Filled (table : List Nat) (i j : Nat) : Prop where
  length_eq : table.length = (old.length + 1) * (new.length + 1)
  cell : ∀ r c, r ≤ old.length → c ≤ new.length → (c = new.length ∨ i < r ∨ (r = i ∧ j ≤ c)) →
    table[r * (new.length + 1) + c]? = some (commonLength (old.drop r) (new.drop c))

end

theorem cell_lt {n m r c : Nat} (hr : r ≤ n) (hc : c ≤ m) :
    r * (m + 1) + c < (n + 1) * (m + 1) := by
  have hrow := Nat.mul_le_mul_right (m + 1) hr
  rw [Nat.succ_mul n]
  omega

theorem cell_inj {m r c r' c' : Nat} (hc : c ≤ m) (hc' : c' ≤ m)
    (h : r * (m + 1) + c = r' * (m + 1) + c') : r = r' ∧ c = c' := by
  have hdiv := congrArg (· / (m + 1)) h
  have hmod := congrArg (· % (m + 1)) h
  simp only [Nat.mul_add_div (Nat.succ_pos m), Nat.mul_comm _ (m + 1), Nat.mul_add_mod,
    Nat.div_eq_of_lt (Nat.lt_succ_of_le hc), Nat.div_eq_of_lt (Nat.lt_succ_of_le hc'),
    Nat.mod_eq_of_lt (Nat.lt_succ_of_le hc), Nat.mod_eq_of_lt (Nat.lt_succ_of_le hc')] at hdiv hmod
  exact ⟨hdiv, hmod⟩

variable {old new : List α} {table : List Nat} {i j : Nat}

/-- Reading a cell that is filled. -/
theorem Filled.itemAt (h : Filled old new table i j) {r c : Nat} (hr : r ≤ old.length)
    (hc : c ≤ new.length) (hplace : c = new.length ∨ i < r ∨ (r = i ∧ j ≤ c)) :
    itemAt (r * (new.length + 1) + c) table = .ok (commonLength (old.drop r) (new.drop c)) :=
  itemAt_eq (h.cell r c hr hc hplace)

/-- A table of zeros is filled in its last row and in its last column. -/
theorem filled_zeros : Filled old new
    (List.replicate ((old.length + 1) * (new.length + 1)) 0) old.length 0 where
  length_eq := List.length_replicate
  cell r c hr hc hplace := by
    rw [List.getElem?_replicate_of_lt (cell_lt hr hc)]
    rcases hplace with rfl | hlt | ⟨rfl, -⟩
    · rw [List.drop_length, Diff.commonLength_nil_right]
    · omega
    · rw [List.drop_length, Diff.commonLength_nil_left]

/-- One row is filled when the next one is, but for its last column. -/
theorem Filled.row (h : Filled old new table (i + 1) 0) : Filled old new table i new.length where
  length_eq := h.length_eq
  cell r c hr hc hplace := by
    refine h.cell r c hr hc ?_
    omega

/-- A cell follows from those after it. -/
theorem fillCell_eq (h : Filled old new table i (j + 1)) (hi : i < old.length)
    (hj : j < new.length) :
    ∃ table', fillCell old new table i j = .ok table' ∧ Filled old new table' i j := by
  have hacross := h.itemAt hi hj (by omega)
  have hbelow := h.itemAt hi hj.le (by omega)
  have hright := h.itemAt hi.le hj (by omega)
  have hlt : i * (new.length + 1) + j < table.length := h.length_eq ▸ cell_lt hi.le hj.le
  have hold := List.drop_eq_getElem_cons hi
  have hnew := List.drop_eq_getElem_cons hj
  have hset : Filled old new (table.set (i * (new.length + 1) + j)
      (commonLength (old.drop i) (new.drop j))) i j := by
    refine ⟨by rw [List.length_set, h.length_eq], fun r c hr hc hplace => ?_⟩
    by_cases hsame : r = i ∧ c = j
    · obtain ⟨rfl, rfl⟩ := hsame
      rw [List.getElem?_set_self hlt]
    · rw [List.getElem?_set_ne fun heq => hsame (cell_inj hc hj.le heq.symm)]
      exact h.cell r c hr hc (by omega)
  refine ⟨_, ?_, hset⟩
  rw [fillCell, itemAt_eq (List.getElem?_eq_getElem hi), hold, hnew, Diff.commonLength]
  simp only [itemAt_eq (List.getElem?_eq_getElem hj), bind, Except.bind]
  by_cases heq : old[i] = new[j]
  · simp only [if_pos heq, Nat.add_assoc _ j 1, hacross]
    exact setAt_eq _ hlt
  · rw [← hnew, ← hold]
    simp only [if_neg heq, Nat.add_assoc _ j 1, hbelow, hright]
    exact setAt_eq _ hlt

theorem fillRow_eq (hi : i < old.length) : ∀ {j : Nat} {table : List Nat}, j ≤ new.length →
    Filled old new table i j →
      ∃ table', fillRow old new i j table = .ok table' ∧ Filled old new table' i 0
  | 0, table, _, h => ⟨table, rfl, h⟩
  | j + 1, table, hj, h => by
    obtain ⟨table', hcell, h'⟩ := fillCell_eq h hi hj
    obtain ⟨table'', hrow, h''⟩ := fillRow_eq hi (Nat.le_of_succ_le hj) h'
    exact ⟨table'', by rw [fillRow, hcell]; exact hrow, h''⟩

theorem fillRows_eq : ∀ {i : Nat} {table : List Nat}, i ≤ old.length →
    Filled old new table i 0 →
      ∃ table', fillRows old new i table = .ok table' ∧ Filled old new table' 0 0
  | 0, table, _, h => ⟨table, rfl, h⟩
  | i + 1, table, hi, h => by
    obtain ⟨table', hrow, h'⟩ := fillRow_eq hi (Nat.le_refl _) h.row
    obtain ⟨table'', hrows, h''⟩ := fillRows_eq (Nat.le_of_succ_le hi) h'
    exact ⟨table'', by rw [fillRows, hrow]; exact hrows, h''⟩

/-! ## The walk back -/

theorem walk_eq (h : Filled old new table 0 0) (i j : Nat) (hi : i ≤ old.length)
    (hj : j ≤ new.length) :
    walk old new table i j =
      .ok (Diff.Table.walk (old.drop i) (new.drop j) (Diff.arrays (old.drop i) new) j) := by
  rw [walk]
  by_cases hinside : i < old.length ∧ j < new.length
  · obtain ⟨hi, hj⟩ := hinside
    have hbelow := h.itemAt hi hj.le (by omega)
    have hright := h.itemAt hi.le hj (by omega)
    have hold := List.drop_eq_getElem_cons hi
    have hnew := List.drop_eq_getElem_cons hj
    have htail : (Diff.arrays (old.drop i) new).tail = Diff.arrays (old.drop (i + 1)) new := by
      rw [hold]
      rfl
    simp only [if_pos (And.intro hi hj), itemAt_eq (List.getElem?_eq_getElem hi),
      itemAt_eq (List.getElem?_eq_getElem hj), Nat.add_assoc _ j 1, hbelow, hright, bind,
      Except.bind]
    obtain ⟨hhere, hnext⟩ := Diff.getD_arrays hnew.symm old[i] (old.drop (i + 1))
    rw [← hold] at hhere hnext
    rw [← hnew, htail] at hnext
    rw [hold, hnew, Diff.Table.walk, ← hold, ← hnew, htail]
    split
    · rw [walk_eq h (i + 1) (j + 1) hi hj]
      rfl
    · simp only [hhere, hnext]
      split
      · rw [walk_eq h (i + 1) j hi hj.le]
        rfl
      · rw [walk_eq h i (j + 1) hi.le hj]
        rfl
  · have hended : old.drop i = [] ∨ new.drop j = [] := by
      rw [List.drop_eq_nil_iff, List.drop_eq_nil_iff]
      omega
    rw [if_neg hinside, restOf_eq hi, restOf_eq hj, Diff.walk_ended hended]
    rfl
termination_by (old.length - i) + (new.length - j)

theorem tableScript_eq (old new : List α) :
    tableScript old new = .ok (Diff.tableScript old new) := by
  obtain ⟨table, hfill, hfilled⟩ := fillRows_eq (Nat.le_refl _) (filled_zeros : Filled old new _ _ _)
  rw [tableScript, Diff.tableScript, hfill, Diff.map_toArray_rows]
  exact walk_eq hfilled 0 0 (Nat.zero_le _) (Nat.zero_le _)

/-! ## Shortest scripts -/

theorem middleScript_eq (old new : List α) :
    middleScript old new =
      .ok (if Diff.tableLimit < (old.length + 1) * (new.length + 1) then Diff.lookahead old new
        else Diff.tableScript old new) := by
  rw [middleScript]
  split
  · exact lookahead_eq old new 0 0 (Nat.zero_le _) (Nat.zero_le _)
  · exact tableScript_eq old new

theorem shortest_eq (old new : List α) : shortest old new = .ok (Diff.shortest old new) := by
  obtain ⟨hold, hnew⟩ := Diff.commonPrefix_le old new
  obtain ⟨holdBack, hnewBack⟩ := Diff.commonPrefix_le (old.drop (Diff.commonPrefix old new)).reverse
    (new.drop (Diff.commonPrefix old new)).reverse
  simp only [shortest, Diff.shortest, frontOf_eq hold, restOf_eq hold, restOf_eq hnew, bind,
    Except.bind]
  generalize Diff.commonPrefix old new = front at *
  generalize Diff.commonPrefix (old.drop front).reverse (new.drop front).reverse = back at *
  rw [List.length_reverse, List.length_drop] at holdBack hnewBack
  have hstop (l : List α) : l.length - back - front = (l.drop front).length - back := by
    rw [List.length_drop]
    omega
  have hlast : (old.drop front).drop ((old.drop front).length - back) =
      old.drop (old.length - back) := by
    rw [List.drop_drop, List.length_drop]
    congr 1
    omega
  simp only [stepBack_eq (show back ≤ old.length by omega),
    stepBack_eq (show back ≤ new.length by omega),
    partOf_eq (show front ≤ old.length - back by omega) (Nat.sub_le _ _),
    partOf_eq (show front ≤ new.length - back by omega) (Nat.sub_le _ _),
    restOf_eq (Nat.sub_le old.length back), hstop, hlast, middleScript_eq]
  rfl

end Checked

end Mend
