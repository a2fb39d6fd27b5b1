import Mend.Proofs.Text.Returns
import Mend.Text.Mask

/-!
# What the mask shows

The steps of the lexer spell out the text (`source_steps`), and what the mask shows is the text with
some characters hidden behind spaces (`veiled_mask`).
-/

namespace Mend.Text.Mask

/-! ## The steps spell out the text -/

theorem source_stringBody (quote : Char) (multiline : Bool) (s : List Char) :
    (stringBody quote multiline s).1 ++ (stringBody quote multiline s).2 = s := by
  fun_induction stringBody quote multiline s <;> simp_all

theorem source_tripleBody (quote : Char) (s : List Char) :
    (tripleBody quote s).1 ++ (tripleBody quote s).2 = s := by
  fun_induction tripleBody quote s <;> simp_all

theorem source_blockBody (nested : Bool) (depth : Nat) (s : List Char) :
    (blockBody nested depth s).1 ++ (blockBody nested depth s).2 = s := by
  fun_induction blockBody nested depth s <;> simp_all

theorem source_quotedStep (quote : Char) (multiline : Bool) (s : List Char) :
    (quotedStep quote multiline s).1.source ++ (quotedStep quote multiline s).2 = quote :: s := by
  have h := source_stringBody quote multiline s
  simp only [quotedStep, Step.source, List.append_assoc, List.take_append_drop, h]
  rfl

theorem source_step (language : Language) (c : Char) (s : List Char) :
    (step language c s).1.source ++ (step language c s).2 = c :: s := by
  unfold step
  split
  · simp [Step.source, List.takeWhile_append_dropWhile]
  split
  · next h =>
    have hbody := source_blockBody language.nestedBlockComments 0 (s.drop 1)
    obtain ⟨rest, rfl⟩ : ∃ rest, s = '*' :: rest := by
      cases s with
      | nil => simp at h
      | cons d s => exact ⟨s, by simp_all⟩
    simp_all [Step.source]
  split
  · next h =>
    have hbody := source_tripleBody c (s.drop 2)
    simp only [Bool.and_eq_true, List.isPrefixOf_iff_prefix] at h
    obtain ⟨⟨-, rest, rfl⟩, -⟩ := h
    simp_all [Step.source]
  split
  · exact source_quotedStep c true s
  split
  · exact source_quotedStep c false s
  split
  · exact source_quotedStep c false s
  · rfl

/-- The steps of a text spell it out. -/
theorem source_steps (language : Language) (s : List Char) :
    (steps language s).flatMap Step.source = s := by
  fun_induction steps language s with
  | case1 => rfl
  | case2 c s ih => rw [List.flatMap_cons, ih, source_step]

/-! ## Hidden characters -/

/-- The second text is the first with some characters hidden behind spaces. -/
inductive Veiled : List Char → List Char → Prop
  | nil : Veiled [] []
  | keep (c : Char) {s t : List Char} : Veiled s t → Veiled (c :: s) (c :: t)
  | hide (c : Char) (n : Nat) {s t : List Char} : Veiled s t →
      Veiled (c :: s) (List.replicate (n + 1) ' ' ++ t)

namespace Veiled

theorem refl : ∀ s : List Char, Veiled s s
  | [] => nil
  | c :: s => keep c (refl s)

theorem append {s t s' t' : List Char} (h : Veiled s t) (h' : Veiled s' t') :
    Veiled (s ++ s') (t ++ t') := by
  induction h with
  | nil => exact h'
  | keep c _ ih => exact keep c ih
  | hide c n _ ih =>
    rw [List.append_assoc]
    exact hide c n ih

theorem hidden : ∀ s : List Char, Veiled s (Mask.hide s)
  | [] => nil
  | c :: s => by
    rw [Mask.hide, List.flatMap_cons, Mask.blank]
    split
    · exact keep c (hidden s)
    · have hsize := Nat.succ_pred_eq_of_pos c.utf8Size_pos
      rw [← hsize]
      exact hide c _ (hidden s)

theorem head?_of_newline {s t : List Char} (h : Veiled s t) (ht : t.head? = some '\n') :
    s.head? = some '\n' := by
  cases h with
  | nil => exact ht
  | keep c _ => exact ht
  | hide c n _ => simp [List.replicate_succ] at ht

theorem crlf_kept {s t : List Char} (h : Veiled s t) (ht : ['\r', '\n'] <:+: t) :
    ['\r', '\n'] <:+: s := by
  induction h with
  | nil => exact ht
  | keep c h ih =>
    rw [List.infix_cons_iff, crlf_prefix_cons] at ht ⊢
    exact ht.imp (And.imp_right h.head?_of_newline) ih
  | hide c n _ ih =>
    refine List.infix_cons_iff.mpr (Or.inr (ih ?_))
    rw [crlf_infix_append] at ht
    rcases ht with ht | ht | ⟨ht, -⟩
    · exact absurd (ht.subset List.mem_cons_self) (by simp)
    · exact ht
    · simp [List.getLast?_replicate] at ht

end Veiled

theorem veiled_masked (step : Step) : Veiled step.source step.masked := by
  cases step with
  | plain c => exact .refl _
  | comment text => exact .hidden text
  | quoted opening body closing =>
    exact ((Veiled.refl opening).append (.hidden body)).append (.refl closing)

theorem veiled_mask (language : Language) (s : List Char) : Veiled s (mask language s) := by
  have h : ∀ l : List Step, Veiled (l.flatMap Step.source) (l.flatMap Step.masked) := by
    intro l
    induction l with
    | nil => exact .nil
    | cons step l ih => exact (veiled_masked step).append ih
  have hsteps := h (steps language s)
  rwa [source_steps] at hsteps

end Mend.Text.Mask
