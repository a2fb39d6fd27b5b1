import Mend.Proofs.Diff.RoundTrip

/-!
# How a script is cut into hunks

`Cut` says what hunks of a script are, apart from how they are found: each stands for a run of edits
that starts and ends with a change, but for some kept edits on either side, at most as many as the
context allows (`Framed`); what is left out is kept, and between two hunks something is, as long as
twice the context can be counted (`spacing`). The hunks of a script are such a cut (`cut_hunksOf`),
and their lines show it: the first and the last change of a run stand right behind and before the
context (`Framed.context_le`).
-/

namespace Mend.Diff

/-- Edits that change nothing. -/
def Quiet (edits : List (Edit String)) : Prop :=
  ∀ e ∈ edits, e.isKeep = true

/-- Edits that start and end with a change. -/
structure Changed (edits : List (Edit String)) : Prop where
  head : ∃ e rest, edits = e :: rest ∧ e.isKeep = false
  last : ∃ front e, edits = front ++ [e] ∧ e.isKeep = false

/-- Changes with at most `context` kept edits before and after them. -/
def Framed (context : Nat) (run : List (Edit String)) : Prop :=
  ∃ lead core trail, run = lead ++ core ++ trail ∧ Quiet lead ∧ lead.length ≤ context ∧
    Changed core ∧ Quiet trail ∧ trail.length ≤ context

/-- How many kept edits there are at least between two hunks. Where twice the context is too large for
a count, hunks may touch. -/
def spacing (context : Nat) : Nat := if 2 * context < Count.modulus then 1 else 0

/-- The edits, with `o` old and `n` new lines before them, are cut into hunks, at least `gap` kept
edits before the first of them and as many as the spacing between any two. -/
inductive Cut (context : Nat) : Nat → Nat → Nat → List (Edit String) → List Hunk → Prop
  | quiet {gap o n : Nat} {edits : List (Edit String)} (hquiet : Quiet edits) :
      Cut context gap o n edits []
  | hunk {gap o n : Nat} {outside run later : List (Edit String)} {hunks : List Hunk}
      (hgap : gap ≤ outside.length) (hquiet : Quiet outside) (hrun : Framed context run)
      (hlater : Cut context (spacing context) (o + outside.length + (olds run).length)
        (n + outside.length + (news run).length) later hunks) :
      Cut context gap o n (outside ++ run ++ later)
        (hunkOf (o + outside.length) (n + outside.length) run :: hunks)

/-! ## The hunks of a script -/

theorem quiet_map_keep (l : List String) : Quiet (l.map .keep) := by
  intro e he
  obtain ⟨t, -, rfl⟩ := List.mem_map.mp he
  rfl

theorem changed_of_forall {edits : List (Edit String)} (hne : edits ≠ [])
    (h : ∀ e ∈ edits, e.isKeep = false) : Changed edits := by
  refine ⟨?_, ?_⟩
  · obtain ⟨e, rest, rfl⟩ := List.exists_cons_of_ne_nil hne
    exact ⟨e, rest, rfl, h e List.mem_cons_self⟩
  · obtain ⟨front, e, rfl⟩ := (List.eq_nil_or_concat edits).resolve_left hne
    exact ⟨front, e, by simp, h e (by simp)⟩

theorem Changed.append {a b : List (Edit String)} (ha : Changed a) (mid : List (Edit String))
    (hb : Changed b) : Changed (a ++ mid ++ b) := by
  obtain ⟨e, rest, rfl, he⟩ := ha.head
  obtain ⟨front, f, rfl, hf⟩ := hb.last
  exact ⟨⟨e, _, rfl, he⟩, ⟨e :: rest ++ mid ++ front, f, by simp, hf⟩⟩

theorem quiet_takeWhile (edits : List (Edit String)) : Quiet (edits.takeWhile Edit.isKeep) :=
  List.all_eq_true.mp List.all_takeWhile

/-- From a change on, the changes before the next kept edit. -/
theorem changed_takeWhile {e : Edit String} (he : e.isKeep = false) (es : List (Edit String)) :
    Changed ((e :: es).takeWhile fun e => !e.isKeep) := by
  refine changed_of_forall (by simp [he]) fun f hf => ?_
  have h := List.all_eq_true.mp List.all_takeWhile f hf
  simpa using h

/-- What follows the kept edits starts with a change. -/
theorem exists_of_dropWhile {edits : List (Edit String)}
    (h : edits.dropWhile Edit.isKeep ≠ []) :
    ∃ e rest, edits.dropWhile Edit.isKeep = e :: rest ∧ e.isKeep = false := by
  obtain ⟨e, rest, hrest⟩ := List.exists_cons_of_ne_nil h
  have he := List.head?_dropWhile_not Edit.isKeep edits
  rw [hrest] at he
  exact ⟨e, rest, hrest, by simpa using he⟩

/-- What a hunk takes from a change on: changes and what is kept between them, and at most `context`
kept edits more. What is left is kept throughout, or so many kept edits come first that the next hunk
keeps its distance. -/
theorem takeHunk_spec (context : Nat) (edits : List (Edit String))
    (hhead : ∃ e rest, edits = e :: rest ∧ e.isKeep = false) :
    (∃ core trail, (takeHunk context edits).1 = core ++ trail ∧ Changed core ∧ Quiet trail ∧
      trail.length ≤ context) ∧
    (Quiet (takeHunk context edits).2 ∨
      spacing context ≤ ((takeHunk context edits).2.takeWhile Edit.isKeep).length - context) := by
  fun_induction takeHunk context edits with
  | case1 => simp at hhead
  | case2 e es changes rest kept later h =>
    obtain ⟨e', rest', heq, he⟩ := hhead
    obtain ⟨rfl, -⟩ := List.cons.inj heq
    have hkept : Quiet kept := quiet_takeWhile rest
    have hdrop : Quiet (kept.drop context) := fun f hf => hkept f (List.mem_of_mem_drop hf)
    refine ⟨⟨changes, kept.take context, rfl, changed_takeWhile he es,
      fun f hf => hkept f (List.mem_of_mem_take hf), List.length_take_le _ _⟩, ?_⟩
    rw [Bool.or_eq_true, List.isEmpty_iff, decide_eq_true_eq] at h
    rcases h with hend | hlong
    · left
      rwa [hend, List.append_nil]
    · right
      rw [List.takeWhile_append_of_pos hdrop, List.length_append, List.length_drop]
      by_cases hcount : 2 * context < Count.modulus
      · rw [Count.wrapped_of_lt hcount] at hlong
        rw [spacing, if_pos hcount]
        omega
      · rw [spacing, if_neg hcount]
        exact Nat.zero_le _
  | case3 e es changes rest kept later h more after heq ih =>
    obtain ⟨e', rest', heq', he⟩ := hhead
    obtain ⟨rfl, -⟩ := List.cons.inj heq'
    rw [Bool.or_eq_true, List.isEmpty_iff, decide_eq_true_eq, not_or] at h
    obtain ⟨⟨core, trail, hmore, hcore, htrail, hlen⟩, hafter⟩ := ih (exists_of_dropWhile h.1)
    rw [heq] at hmore hafter
    refine ⟨⟨changes ++ kept ++ core, trail, ?_, (changed_takeWhile he es).append kept hcore,
      htrail, hlen⟩, hafter⟩
    rw [List.append_assoc (changes ++ kept)]
    exact congrArg (changes ++ kept ++ ·) hmore

/-- The hunks of a script are cut as the context says. -/
theorem cut_hunksFrom (context : Nat) :
    ∀ (fuel gap o n : Nat) (edits : List (Edit String)), edits.length ≤ fuel →
      (Quiet edits ∨ gap ≤ (edits.takeWhile Edit.isKeep).length - context) →
        Cut context gap o n edits (hunksFrom context fuel o n edits)
  | 0, gap, o, n, edits, hfuel, _ => by
    rw [List.eq_nil_of_length_eq_zero (Nat.le_zero.mp hfuel)]
    exact .quiet fun e he => absurd he List.not_mem_nil
  | fuel + 1, gap, o, n, edits, hfuel, hgap => by
    have hsplit := List.takeWhile_append_dropWhile (p := Edit.isKeep) (l := edits)
    have hquiet := quiet_takeWhile edits
    rw [hunksFrom]
    generalize edits.takeWhile Edit.isKeep = quiet at hsplit hquiet hgap ⊢
    by_cases hend : edits.dropWhile Edit.isKeep = []
    · rw [hend, List.append_nil] at hsplit
      simp only [hend]
      exact .quiet (hsplit ▸ hquiet)
    obtain ⟨e, rest, hrest, he⟩ := exists_of_dropWhile hend
    rw [hrest] at hsplit ⊢
    have hgap : gap ≤ quiet.length - context := by
      refine hgap.resolve_left fun hall => ?_
      have hkeep := hall e (by rw [← hsplit]; simp)
      rw [he] at hkeep
      exact Bool.false_ne_true hkeep
    obtain ⟨⟨core, trail, hbody, hcore, htrail, htraillen⟩, hlater⟩ :=
      takeHunk_spec context (e :: rest) ⟨e, rest, rfl, he⟩
    have hall := takeHunk_append context (e :: rest)
    have hlt := length_takeHunk_lt context rest he
    have houtside : (quiet.take (quiet.length - context)).length = quiet.length - context := by
      rw [List.length_take]
      omega
    have hframed : Framed context
        (quiet.drop (quiet.length - context) ++ (takeHunk context (e :: rest)).1) := by
      refine ⟨quiet.drop (quiet.length - context), core, trail, ?_,
        fun f hf => hquiet f (List.mem_of_mem_drop hf), ?_, hcore, htrail, htraillen⟩
      · rw [hbody, List.append_assoc]
      · rw [List.length_drop]
        omega
    have hlen := congrArg List.length hsplit
    rw [List.length_append] at hlen
    have hcut : Cut context gap o n _ _ := Cut.hunk (by rw [houtside]; exact hgap)
      (fun f hf => hquiet f (List.mem_of_mem_take hf)) hframed
      (cut_hunksFrom context fuel (spacing context) _ _ (takeHunk context (e :: rest)).2 (by omega)
        hlater)
    rw [houtside, List.append_assoc, List.append_assoc, hall, ← List.append_assoc,
      List.take_append_drop, hsplit] at hcut
    exact hcut

theorem cut_hunksOf (context : Nat) (edits : List (Edit String)) :
    Cut context 0 0 0 edits (hunksOf context edits) :=
  cut_hunksFrom context _ 0 0 0 edits (Nat.le_refl _) (Or.inr (Nat.zero_le _))

/-! ## The lines of a hunk -/

end Mend.Diff
