import Mend.Workspace
import Mathlib.Algebra.Group.Nat.Defs
import Mathlib.Data.List.Basic

/-!
# Running operations

What an operation does to a workspace is a function of the workspace (`Work.exec`), and an operation
that is put together of others does what they do one after the other (`exec_bind`). Where a file is
to be replaced, the disk may refuse (`Workspace.Takes`, `exec_write`).

Ids are given out in order. The digits of a number are those of its id (`idOf_inj`), and the first
eight of them tell apart numbers that are less than 2 ^ 32 apart (`mod_eq_of_take_idOf`).
-/

namespace Mend

/-! ## Disks -/

/-- The disk lets a file be replaced by these bytes. -/
def Workspace.Takes (w : Workspace) (p : Path) (bytes : ByteArray) : Prop :=
  w.disk.refuses w.clock w.tree p bytes = none

namespace Disk

/-- The disk never refuses anything. -/
def Willing (d : Disk) : Prop := ∀ now t p bytes, d.refuses now t p bytes = none

/-- Where the disk has just taken new bytes for a file, it takes the old ones back. -/
def TakesBack (d : Disk) : Prop :=
  ∀ now t t' p old new, t.read p = .ok old → t.write p new = .ok t' →
    d.refuses now t p new = none → d.refuses now t' p old = none

theorem Willing.takesBack {d : Disk} (h : d.Willing) : d.TakesBack :=
  fun _ _ _ _ _ _ _ _ _ => h _ _ _ _

theorem willing_default : Willing {} := fun _ _ _ _ => rfl

end Disk

theorem Disk.Willing.takes {w : Workspace} (h : w.disk.Willing) (p : Path) (bytes : ByteArray) :
    w.Takes p bytes := h _ _ _ _

namespace Work

variable {α β : Type}

/-! ## Outcomes -/

/-- The outcome of an operation and the workspace after it. -/
def exec (x : Work α) (w : Workspace) : Except Fault α × Workspace := (ExceptT.run x).run w

@[simp] theorem exec_pure (a : α) (w : Workspace) : exec (pure a) w = (.ok a, w) := rfl

@[simp] theorem exec_throw (e : Fault) (w : Workspace) :
    exec (throw e : Work α) w = (.error e, w) := rfl

theorem exec_bind (x : Work α) (f : α → Work β) (w : Workspace) :
    exec (x >>= f) w =
      match exec x w with
      | (.ok a, w') => exec (f a) w'
      | (.error e, w') => (.error e, w') := by
  cases h : exec x w with
  | mk r w' =>
    cases r <;>
      simp only [exec, ExceptT.run_bind, StateT.run_bind] at h ⊢ <;>
      rw [h] <;> rfl

theorem exec_bind_error {x : Work α} {f : α → Work β} {w w' : Workspace} {e : Fault}
    (h : exec x w = (.error e, w')) : exec (x >>= f) w = (.error e, w') := by
  rw [exec_bind, h]

@[simp] theorem exec_map (f : α → β) (x : Work α) (w : Workspace) :
    exec (f <$> x) w = ((exec x w).1.map f, (exec x w).2) := by
  rw [map_eq_pure_bind, exec_bind]
  cases h : exec x w with
  | mk r w' => cases r <;> rfl

@[simp] theorem exec_attempt (x : Work α) (w : Workspace) :
    exec x.attempt w = (.ok (exec x w).1, (exec x w).2) := rfl

@[simp] theorem exec_ofExcept (r : Except Fault α) (w : Workspace) :
    exec (ofExcept r) w = (r, w) := by
  cases r <;> rfl

@[simp] theorem exec_get (w : Workspace) : exec (get : Work Workspace) w = (.ok w, w) := rfl

@[simp] theorem exec_tree (w : Workspace) : exec tree w = (.ok w.tree, w) := rfl

@[simp] theorem exec_modify (f : Workspace → Workspace) (w : Workspace) :
    exec (modify f) w = (.ok (), f w) := rfl

@[simp] theorem exec_now (w : Workspace) :
    exec now w = (.ok (w.tick w.clock), { w with clock := w.tick w.clock }) := rfl

@[simp] theorem exec_freshId (w : Workspace) :
    exec freshId w = (.ok (idOf w.serial), { w with serial := w.serial + 1 }) := rfl

/-! ## Files -/

theorem exec_reading (p : Path) (f : FileTree → Except IoError α) (w : Workspace) :
    exec (reading p f) w = ((f w.tree).mapError (.io p), w) := by
  rw [reading, exec_bind, exec_tree]
  simp only
  cases f w.tree <;> rfl

theorem exec_changing (p : Path) (f : FileTree → Except IoError FileTree) (w : Workspace) :
    exec (changing p f) w =
      match f w.tree with
      | .ok t => (.ok (), { w with tree := t })
      | .error e => (.error (.io p e), w) := by
  rw [changing, exec_bind, exec_tree]
  simp only
  cases f w.tree <;> rfl

theorem exec_write_ok {w : Workspace} {p : Path} {bytes : ByteArray} {t : FileTree}
    (h : w.tree.write p bytes = .ok t) (hdisk : w.Takes p bytes) :
    exec (write p bytes) w = (.ok (), { w with tree := t }) := by
  rw [Workspace.Takes] at hdisk
  rw [write, exec_bind, exec_get]
  simp only [h, hdisk, exec_modify]

/-- A file is replaced, or the tree or the disk does not let it be, and nothing changes. -/
theorem exec_write (p : Path) (bytes : ByteArray) (w : Workspace) :
    (∃ t, w.tree.write p bytes = .ok t ∧ w.Takes p bytes ∧
      exec (write p bytes) w = (.ok (), { w with tree := t })) ∨
    ∃ place cause, exec (write p bytes) w = (.error (.io place cause), w) ∧
      ∀ t, w.tree.write p bytes = .ok t → ¬ w.Takes p bytes := by
  rw [write, exec_bind, exec_get]
  simp only [Workspace.Takes]
  cases hdisk : w.disk.refuses w.clock w.tree p bytes with
  | none =>
    cases hwrite : w.tree.write p bytes with
    | ok t => exact Or.inl ⟨t, rfl, rfl, rfl⟩
    | error e => cases e <;> exact Or.inr ⟨_, _, rfl, by simp⟩
  | some fault =>
    cases hwrite : w.tree.write p bytes with
    | ok t => exact Or.inr ⟨_, _, rfl, by simp⟩
    | error e => cases e <;> exact Or.inr ⟨_, _, rfl, by simp⟩

/-! ## Ids -/

/-- The value of a hexadecimal digit. -/
def digitValue (c : Char) : Nat := if c.isDigit then c.toNat - 48 else c.toNat - 87

theorem digitValue_digitChar : ∀ {k : Nat}, k < 16 → digitValue k.digitChar = k := by decide

/-- The number that hexadecimal digits spell, the lowest first. -/
def valueOf : List Char → Nat
  | [] => 0
  | c :: s => digitValue c + 16 * valueOf s

theorem valueOf_append (t : List Char) :
    ∀ s : List Char, valueOf (s ++ t) = valueOf s + 16 ^ s.length * valueOf t
  | [] => by simp [valueOf]
  | c :: s => by
    rw [List.cons_append, valueOf, valueOf, valueOf_append t s, List.length_cons, Nat.pow_succ,
      Nat.mul_add, Nat.add_assoc, Nat.mul_comm (16 ^ s.length) 16, Nat.mul_assoc]

theorem valueOf_zeros : ∀ k : Nat, valueOf (List.replicate k '0') = 0
  | 0 => rfl
  | k + 1 => by
    rw [List.replicate_succ, valueOf, valueOf_zeros k]
    rfl

theorem valueOf_digits (n : Nat) : valueOf (Nat.toDigits 16 n).reverse = n := by
  induction n using Nat.strongRecOn with
  | ind n ih =>
    rw [Nat.toDigits_eq_if (by omega)]
    split
    · next h => simp [valueOf, digitValue_digitChar h]
    · next h =>
      rw [List.reverse_append, List.reverse_singleton, List.singleton_append, valueOf,
        ih (n / 16) (by omega), digitValue_digitChar (Nat.mod_lt n (by omega))]
      omega

theorem valueOf_idDigits (n : Nat) : valueOf (idDigits n) = n := by
  simp only [idDigits, valueOf_append, valueOf_digits, valueOf_zeros, Nat.mul_zero, Nat.add_zero]

theorem length_idDigits (n : Nat) : 30 ≤ (idDigits n).length := by
  simp only [idDigits, List.length_append, List.length_replicate]
  omega

theorem slash_not_mem_idDigits (n : Nat) : '/' ∉ idDigits n := by
  have hdigit : ∀ k < 16, '/' ≠ k.digitChar := by decide
  have hdigits : '/' ∉ Nat.toDigits 16 n := by
    induction n using Nat.strongRecOn with
    | ind n ih =>
      rw [Nat.toDigits_eq_if (by omega)]
      split
      · next h => exact fun hmem => hdigit n h (List.mem_singleton.mp hmem)
      · next h =>
        rw [List.mem_append, List.mem_singleton, not_or]
        exact ⟨ih (n / 16) (by omega), hdigit _ (Nat.mod_lt n (by omega))⟩
  simp [idDigits, hdigits]

theorem take_idOf (n : Nat) : (idOf n).toList.take 8 = (idDigits n).take 8 := by
  have h := length_idDigits n
  simp only [idOf, String.toList_ofList, List.append_assoc]
  rw [List.take_append_of_le_length (by rw [List.length_take]; omega), List.take_take]
  rfl

theorem idOf_inj {n m : Nat} (h : idOf n = idOf m) : n = m := by
  have hn := length_idDigits n
  have hm := length_idDigits m
  have hlist := congrArg String.toList h
  simp only [idOf, String.toList_ofList, List.append_assoc] at hlist
  obtain ⟨h₁, hlist⟩ := List.append_inj hlist (by simp only [List.length_take]; omega)
  obtain ⟨-, hlist⟩ := List.append_inj hlist rfl
  obtain ⟨h₂, hlist⟩ := List.append_inj hlist (by simp only [List.length_take, List.length_drop]; omega)
  obtain ⟨-, hlist⟩ := List.append_inj hlist rfl
  obtain ⟨h₃, hlist⟩ := List.append_inj hlist (by simp only [List.length_take, List.length_drop]; omega)
  obtain ⟨-, hlist⟩ := List.append_inj hlist rfl
  obtain ⟨h₄, hlist⟩ := List.append_inj hlist (by simp only [List.length_take, List.length_drop]; omega)
  obtain ⟨-, h₅⟩ := List.append_inj hlist rfl
  have hdigits : ∀ d : List Char,
      d = d.take 8 ++ ((d.drop 8).take 4 ++ ((d.drop 12).take 3 ++ ((d.drop 15).take 3 ++ d.drop 18))) := by
    intro d
    have h15 := List.take_append_drop 3 (d.drop 15)
    have h12 := List.take_append_drop 3 (d.drop 12)
    have h8 := List.take_append_drop 4 (d.drop 8)
    rw [List.drop_drop] at h15 h12 h8
    rw [h15, h12, h8, List.take_append_drop]
  rw [← valueOf_idDigits n, ← valueOf_idDigits m, hdigits (idDigits n), hdigits (idDigits m), h₁, h₂,
    h₃, h₄, h₅]

/-- Ids with the same first eight digits are those of numbers a multiple of 2 ^ 32 apart. -/
theorem mod_eq_of_take_idOf {n m : Nat}
    (h : (idOf n).toList.take 8 = (idOf m).toList.take 8) : n % 2 ^ 32 = m % 2 ^ 32 := by
  have hvalue : ∀ k : Nat, k % 2 ^ 32 = valueOf ((idDigits k).take 8) % 2 ^ 32 := by
    intro k
    have hk := length_idDigits k
    have hsplit := valueOf_append ((idDigits k).drop 8) ((idDigits k).take 8)
    rw [List.take_append_drop, valueOf_idDigits, List.length_take_of_le (by omega)] at hsplit
    omega
  rw [take_idOf, take_idOf] at h
  rw [hvalue n, hvalue m, h]

end Work

end Mend
