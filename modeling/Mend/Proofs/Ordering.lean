import Mend.Issue
import Mathlib.Data.List.Basic
import Mathlib.Data.List.Pairwise

/-!
# Lists in order

Findings are listed in an order in which different findings may stand at the same place, so that a
list is not told by its findings alone: those at the same place keep the order that they had. A list
in order is told by these classes (`eq_of_ordered`), and to sort leaves each of them as it is
(`filter_tied_mergeSort`). So it makes no difference whether findings are chosen before or after they
are sorted (`filter_mergeSort`), nor in which order the parts of a list come if no two parts have
findings at the same place (`mergeSort_flatMap_perm`).

The order of findings goes by file, line, column and rule, and that of files part by part
(`Path.compare_eq_iff`).
-/

namespace Mend

/-! ## Stable sorting -/

section

variable {α β : Type} {le : α → α → Bool}

/-- Each of the two may stand before the other. -/
def Tied (le : α → α → Bool) (a b : α) : Bool := le a b && le b a

/-- Lists in order are the same if all their classes are. -/
theorem eq_of_ordered (hrefl : ∀ a, le a a = true) : ∀ {l l' : List α},
    l.Pairwise (le · ·) → l'.Pairwise (le · ·) →
      (∀ a, l.filter (Tied le a) = l'.filter (Tied le a)) → l = l'
  | [], [], _, _, _ => rfl
  | [], b :: l', _, _, h => by simpa [Tied, hrefl] using h b
  | a :: l, [], _, _, h => by simpa [Tied, hrefl] using h a
  | a :: l, b :: l', hl, hl', h => by
    rw [List.pairwise_cons] at hl hl'
    have hmem : ∀ c, c ∈ a :: l ↔ c ∈ b :: l' := fun c => by
      have hc : c ∈ (a :: l).filter (Tied le c) ↔ c ∈ (b :: l').filter (Tied le c) := by rw [h c]
      simpa [List.mem_filter, Tied, hrefl] using hc
    have hab : le a b = true := by
      rcases List.mem_cons.mp ((hmem b).mpr List.mem_cons_self) with rfl | hb
      · exact hrefl b
      · exact hl.1 b hb
    have hba : le b a = true := by
      rcases List.mem_cons.mp ((hmem a).mp List.mem_cons_self) with rfl | ha
      · exact hrefl a
      · exact hl'.1 a ha
    obtain rfl : a = b := by
      have hhead := h a
      rw [List.filter_cons_of_pos (by simp [Tied, hrefl]),
        List.filter_cons_of_pos (by simp [Tied, hab, hba])] at hhead
      exact (List.cons.inj hhead).1
    rw [eq_of_ordered hrefl hl.2 hl'.2 fun c => ?_]
    have hc := h c
    by_cases htied : Tied le c a = true
    · rw [List.filter_cons_of_pos htied, List.filter_cons_of_pos htied] at hc
      exact (List.cons.inj hc).2
    · rwa [List.filter_cons_of_neg htied, List.filter_cons_of_neg htied] at hc

/-- An order that compares any two. -/
structure Ordered (le : α → α → Bool) : Prop where
  trans : ∀ a b c, le a b = true → le b c = true → le a c = true
  total : ∀ a b, (le a b || le b a) = true

namespace Ordered

theorem refl (h : Ordered le) (a : α) : le a a = true := by simpa using h.total a a

/-- To sort leaves each class as it is. -/
theorem filter_tied_mergeSort (h : Ordered le) (l : List α) (a : α) :
    (l.mergeSort le).filter (Tied le a) = l.filter (Tied le a) := by
  have hclass : (l.filter (Tied le a)).Pairwise (le · ·) := by
    refine List.pairwise_of_forall_mem_list fun b hb c hc => ?_
    simp only [List.mem_filter, Tied, Bool.and_eq_true] at hb hc
    exact h.trans b a c hb.2.2 hc.2.1
  have hsublist := (List.sublist_mergeSort h.trans h.total hclass List.filter_sublist).filter
    (Tied le a)
  simp only [List.filter_filter, Bool.and_self] at hsublist
  exact (hsublist.eq_of_length ((List.mergeSort_perm l le).filter _).length_eq.symm).symm

/-- Elements may be chosen before or after they are sorted. -/
theorem filter_mergeSort (h : Ordered le) (p : α → Bool) (l : List α) :
    (l.mergeSort le).filter p = (l.filter p).mergeSort le := by
  refine eq_of_ordered h.refl ((List.pairwise_mergeSort h.trans h.total l).filter p)
    (List.pairwise_mergeSort h.trans h.total _) fun a => ?_
  rw [h.filter_tied_mergeSort, List.filter_comm, h.filter_tied_mergeSort, List.filter_comm]

theorem mergeSort_congr (h : Ordered le) {l l' : List α}
    (hclass : ∀ a, l.filter (Tied le a) = l'.filter (Tied le a)) :
    l.mergeSort le = l'.mergeSort le := by
  refine eq_of_ordered h.refl (List.pairwise_mergeSort h.trans h.total l)
    (List.pairwise_mergeSort h.trans h.total l') fun a => ?_
  rw [h.filter_tied_mergeSort, h.filter_tied_mergeSort, hclass]

end Ordered

/-- Parts of which no two have anything may come in any order. -/
theorem flatMap_perm {f : β → List α} {l l' : List β} (h : l.Perm l')
    (hl : l.Pairwise fun b b' => f b = [] ∨ f b' = []) : l.flatMap f = l'.flatMap f := by
  induction h with
  | nil => rfl
  | cons b _ ih => rw [List.flatMap_cons, List.flatMap_cons, ih (List.pairwise_cons.mp hl).2]
  | swap b b' l =>
    simp only [List.flatMap_cons, ← List.append_assoc]
    rcases (List.pairwise_cons.mp hl).1 b List.mem_cons_self with h | h <;> simp [h]
  | trans h _ ih ih' => rw [ih hl, ih' (h.pairwise hl Or.symm)]

/-- Parts of which no two have elements at the same place may come in any order. -/
theorem Ordered.mergeSort_flatMap_perm (h : Ordered le) {f : β → List α} {l l' : List β}
    (hperm : l.Perm l')
    (hl : l.Pairwise fun b b' => ∀ a ∈ f b, ∀ a' ∈ f b', ¬ Tied le a a') :
    (l.flatMap f).mergeSort le = (l'.flatMap f).mergeSort le := by
  refine h.mergeSort_congr fun a => ?_
  rw [List.filter_flatMap, List.filter_flatMap]
  refine flatMap_perm hperm (hl.imp fun {b b'} hapart => ?_)
  -- elements that are tied with `a` would be tied with each other
  by_contra hboth
  rw [not_or] at hboth
  obtain ⟨c, hc⟩ := List.exists_mem_of_ne_nil _ hboth.1
  obtain ⟨c', hc'⟩ := List.exists_mem_of_ne_nil _ hboth.2
  simp only [List.mem_filter, Tied, Bool.and_eq_true] at hc hc'
  refine hapart c hc.1 c' hc'.1 ?_
  simp [Tied, h.trans c a c' hc.2.2 hc'.2.1, h.trans c' a c hc'.2.2 hc.2.1]

end

/-! ## The order of paths -/

open Std (OrientedCmp TransCmp LawfulEqCmp)

theorem transCmp_on {α β : Type} (cmp : α → α → Ordering) [TransCmp cmp] (f : β → α) :
    TransCmp fun a b => cmp (f a) (f b) where
  eq_swap := OrientedCmp.eq_swap
  isLE_trans := TransCmp.isLE_trans

theorem ordered_of_transCmp {α : Type} (cmp : α → α → Ordering) [TransCmp cmp] :
    Ordered fun a b => cmp a b != .gt where
  trans a b c hab hbc := by
    simp only [bne_iff_ne, ← Ordering.isLE_iff_ne_gt] at *
    exact TransCmp.isLE_trans hab hbc
  total a b := by
    have hswap : cmp b a = (cmp a b).swap := OrientedCmp.eq_swap
    rw [hswap]
    cases cmp a b <;> rfl

theorem eq_of_tied {α : Type} {cmp : α → α → Ordering} [OrientedCmp cmp] {a b : α}
    (h : Tied (fun a b => cmp a b != .gt) a b) : cmp a b = .eq := by
  have hswap : cmp b a = (cmp a b).swap := OrientedCmp.eq_swap
  rw [Tied, hswap] at h
  cases hcmp : cmp a b <;> simp [hcmp] at h ⊢

namespace Path

/-- Parts go by their kind and then by their text. -/
theorem Part.compare_eq : Part.compare = compareLex (compareOn Part.rank) (compareOn Part.text) := by
  funext a b
  cases a <;> cases b <;> try rfl
  simp only [Part.compare, compareLex, compareOn, Part.rank, Part.text, beq_iff_eq, Std.compare_self,
    Ordering.eq_then]
  rfl

instance : TransCmp Part.compare := by
  rw [Part.compare_eq]
  infer_instance

instance : LawfulEqCmp Part.compare where
  eq_of_compare {a b} h := by
    rw [Part.compare_eq, compareLex_eq_eq] at h
    have hrank : a.rank = b.rank := Std.LawfulEqOrd.eq_of_compare h.1
    have htext : a.text = b.text := Std.LawfulEqOrd.eq_of_compare h.2
    cases a <;> cases b <;> simp_all [Part.rank, Part.text]

theorem compareParts_eq : ∀ ps qs, compareParts ps qs = List.compareLex Part.compare ps qs
  | [], [] => rfl
  | [], _ :: _ => rfl
  | _ :: _, [] => rfl
  | p :: ps, q :: qs => by
    rw [compareParts, List.compareLex_cons_cons, compareParts_eq ps qs]
    cases p.compare q <;> rfl

instance : TransCmp Path.compare := by
  have h : Path.compare = fun p q => List.compareLex Part.compare p.parts q.parts := by
    funext p q
    exact compareParts_eq _ _
  rw [h]
  exact transCmp_on _ _

/-- Two paths are at the same place in the order exactly if they have the same steps. -/
theorem compare_eq_iff {p q : Path} : p.compare q = .eq ↔ p.parts = q.parts := by
  rw [compare, compareParts_eq]
  exact Std.LawfulEqCmp.compare_eq_iff_eq

end Path

namespace Finding

theorem compareColumns_eq (a b : Option Nat) : compareColumns a b = Ord.compare a b := by
  cases a <;> cases b <;> rfl

/-- Findings go by their file, their line, their column and their rule. -/
theorem compare_eq : Finding.compare = compareLex (fun a b => a.file.compare b.file)
    (compareLex (compareOn Finding.line) (compareLex (compareOn Finding.column)
      (compareOn Finding.rule))) := by
  funext a b
  have hrule : (if a.rule < b.rule then Ordering.lt else if a.rule == b.rule then .eq else .gt) =
      Ord.compare a.rule b.rule := by
    simp only [beq_iff_eq]
    rfl
  rw [compare, compareColumns_eq, hrule]
  rfl

instance : TransCmp Finding.compare := by
  have := transCmp_on Path.compare Finding.file
  rw [compare_eq]
  infer_instance

/-- Findings can be listed. -/
theorem ordered_listedBefore : Ordered listedBefore := ordered_of_transCmp Finding.compare

/-- Findings at the same place in the order are about the same file. -/
theorem parts_eq_of_tied {a b : Finding} (h : Tied listedBefore a b) :
    a.file.parts = b.file.parts := by
  have heq : a.compare b = .eq := eq_of_tied h
  rw [compare_eq, compareLex_eq_eq] at heq
  exact Path.compare_eq_iff.mp heq.1

end Finding

end Mend
