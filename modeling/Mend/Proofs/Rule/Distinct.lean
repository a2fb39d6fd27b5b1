import Mathlib.Data.List.Nodup
import Mend.Proofs.Rule.Basic
import Mend.Rule.Catalogue

/-!
# Rules that object to no place twice

Each rule of the catalogue objects to no offset of a file twice (`Rule.distinct_of_mem_catalogue`).
One of them searches every block of background work by itself, and finds what lies in a block within
a block once for each: it is distinct where nothing that it finds in one block lies in another one
(`Ios.Untangled`).
-/

namespace Mend

open Pattern

/-- What is found in the code of a block lies between its braces. -/
theorem Context.contains_of_mem_findAll (ctx : Context) {b : Block} {p : Pattern}
    (hp : p.solid = true) {m : Match} (hm : m ∈ p.findAll (ctx.bodyOf b)) :
    b.contains (b.body.start + m.start) = true := by
  obtain ⟨i, j, ms, hreads, hj, rfl⟩ := reads_of_mem_findAll hm
  have hlt : i < (ctx.bodyOf b).length := (hreads.lt hp).trans_le hj
  have hsplit : ctx.bodyOf b =
      (ctx.bodyOf b).take i ++ (ctx.bodyOf b)[i] :: (ctx.bodyOf b).drop (i + 1) := by simp
  have hstop := Text.width_lt_of_cut hsplit
  rw [Block.contains, Subject.offset_of hlt.le]
  simpa using hstop

/-! ## React -/

namespace React

theorem distinct_effectSubscriptionLeak (ctx : Context) : effectSubscriptionLeak.Distinct ctx :=
  .of_pairwise rfl (pairwise_filterMap (pairwise_blocksAfter ctx effectOpener 0) fun _ =>
    .ite (.some rfl) .none)

theorem distinct_unguardedAsyncState (ctx : Context) : unguardedAsyncState.Distinct ctx := by
  refine .of_pairwise rfl (pairwise_filterMap (pairwise_blocksAfter ctx effectOpener 0)
    fun block => ?_)
  simp only
  split
  · exact .none
  · exact .ite (.some rfl) .none

/-- Sorting brings equal offsets together, and of those in a row one is kept. -/
theorem pairwise_eraseReps_loop : ∀ {rest done : List Nat} {n : Nat},
    (n :: rest).Pairwise (· ≤ ·) → (n :: done).Pairwise (· > ·) →
      (List.eraseRepsBy.loop (· == ·) n rest done).Pairwise (· < ·)
  | [], done, n, _, hdone => by
    rw [List.eraseRepsBy.loop]
    exact List.pairwise_reverse.mpr hdone
  | m :: rest, done, n, hrest, hdone => by
    obtain ⟨hle, hrest'⟩ := List.pairwise_cons.mp hrest
    rw [List.eraseRepsBy.loop]
    split
    · exact pairwise_eraseReps_loop (hrest.sublist (by simp)) hdone
    · next hne =>
      have hlt : n < m := Nat.lt_of_le_of_ne (hle m List.mem_cons_self) (by simpa using hne)
      refine pairwise_eraseReps_loop hrest' (List.pairwise_cons.mpr ⟨fun k hk => ?_, hdone⟩)
      rcases List.mem_cons.mp hk with rfl | hk
      · exact hlt
      · exact Nat.lt_trans ((List.pairwise_cons.mp hdone).1 k hk) hlt

theorem pairwise_sortedOffsets (offsets : List Nat) :
    (sortedOffsets offsets).Pairwise (· < ·) := by
  have hsorted : (offsets.mergeSort fun a b => a ≤ b).Pairwise (· ≤ ·) :=
    (List.pairwise_mergeSort (by simpa using fun _ _ _ => Nat.le_trans)
      (by simpa using Nat.le_total) offsets).imp of_decide_eq_true
  rw [sortedOffsets]
  cases h : offsets.mergeSort fun a b => a ≤ b with
  | nil => exact List.Pairwise.nil
  | cons n rest =>
    rw [h] at hsorted
    exact pairwise_eraseReps_loop hsorted (List.pairwise_singleton _ _)

theorem distinct_directStateMutation (ctx : Context) : directStateMutation.Distinct ctx := by
  refine .of_pairwise rfl ?_
  simp only [List.map_map, Function.comp_def, List.map_id']
  exact pairwise_sortedOffsets _

theorem distinct_listenerLeak (ctx : Context) : listenerLeak.Distinct ctx := by
  have hdiffer : ∀ c, ¬ (addListener.mayStart c = true ∧
      (boundary ++ spaced ["setInterval", "("]).mayStart c = true) := by
    intro c
    have hlistener : addListener.mayStart c = true → (c = 'w' ∨ c = 'd') ∨ c = 'a' := by
      simp [addListener, spaced, lit, litChars, opt, words, oneOf, mayStart, solid]
    have hinterval : (boundary ++ spaced ["setInterval", "("]).mayStart c = true → c = 's' := by
      simp [spaced, lit, litChars, mayStart, solid]
    rintro ⟨h, h'⟩
    obtain rfl := hinterval h'
    exact absurd (hlistener h) (by decide)
  refine .of_nodup rfl (nodup_append_starts ctx.masked (by decide) (by decide) hdiffer ?_ ?_)
  · split
    · exact List.nil_sublist _
    · exact sublist_filterMap (fun _ => .ite .none (.some rfl)) _
  · split
    · exact List.nil_sublist _
    · exact sublist_filterMap (fun _ => .ite .none (.some rfl)) _

theorem distinct_nonNullAssertion (ctx : Context) : nonNullAssertion.Distinct ctx := fun _ h =>
  (pairwise_assertionDetections (pairwise_findAll _ _) h).imp Nat.ne_of_lt

theorem distinct_looseEquality (ctx : Context) : looseEquality.Distinct ctx :=
  .of_pairwise rfl (pairwise_groups_filterMap (p := looseOperator) (by decide) fun _ _ =>
    .ite .none (.some rfl))

theorem distinct_nativeListenerLeak (ctx : Context) : nativeListenerLeak.Distinct ctx :=
  .of_pairwise rfl (pairwise_starts_filterMap fun _ => .ite .none (.some rfl))

end React

namespace Flutter

theorem distinct_streamSubscriptionLeak (ctx : Context) : streamSubscriptionLeak.Distinct ctx :=
  .of_pairwise rfl (pairwise_starts_filterMap fun _ => .ite .none (.some rfl))

theorem distinct_undisposedController (ctx : Context) : undisposedController.Distinct ctx :=
  .of_pairwise rfl (pairwise_groups_filterMap (p := newController) (by decide) fun _ _ =>
    .bind fun _ _ => .bind fun _ _ => .ite .none (.some rfl))

theorem sublist_lateSetStates : ∀ (w : Waiting) (lines : List (Nat × List Char)),
    ((lateSetStates w lines).map Prod.fst).Sublist (lines.map Prod.fst)
  | _, [] => .slnil
  | w, (line, text) :: rest => by
    have hrest := sublist_lateSetStates ((w.enter text).leave text) rest
    rw [lateSetStates]
    split
    · split
      · exact hrest.cons_cons line
      · exact hrest.cons line
    · exact hrest.cons line

theorem exists_of_mem_lateSetStates {line at' : Nat} : ∀ {w : Waiting}
    {lines : List (Nat × List Char)}, (line, at') ∈ lateSetStates w lines →
      ∃ text, (line, text) ∈ lines ∧ at' ≤ Text.width text
  | _, [], h => by simp [lateSetStates] at h
  | w, (line', text) :: rest, h => by
    have hrest : (line, at') ∈ lateSetStates ((w.enter text).leave text) rest →
        ∃ text', (line, text') ∈ (line', text) :: rest ∧ at' ≤ Text.width text' := by
      intro h
      obtain ⟨text', hmem, hle⟩ := exists_of_mem_lateSetStates h
      exact ⟨text', List.mem_cons_of_mem _ hmem, hle⟩
    rw [lateSetStates] at h
    split at h
    · next m hm =>
      split at h
      · rcases List.mem_cons.mp h with h | h
        · obtain ⟨rfl, rfl⟩ := Prod.mk.inj h
          exact ⟨text, List.mem_cons_self, start_le_of_find? hm⟩
        · exact hrest h
      · exact hrest h
    · exact hrest h

theorem distinct_setStateAfterAwait {ctx : Context} (hctx : ctx.Indexed) :
    setStateAfterAwait.Distinct ctx := by
  refine .of_pairwise rfl ?_
  rw [List.map_map]
  refine Context.pairwise_onLine hctx
    ((Context.pairwise_maskedLines ctx).sublist (sublist_lateSetStates {} _)) fun x hx => ?_
  obtain ⟨text, hmem, hle⟩ := exists_of_mem_lateSetStates hx
  obtain ⟨i, row, hline, hrow, rfl⟩ := Context.exists_row_of_mem_maskedLines hmem
  exact ⟨i, row, hline, hrow, hle.trans (Context.width_withoutReturns_le row)⟩

theorem distinct_nullAssertion (ctx : Context) : nullAssertion.Distinct ctx := fun _ h =>
  (pairwise_assertionDetections (pairwise_findAll _ _) h).imp Nat.ne_of_lt

theorem distinct_uncheckedCast (ctx : Context) : uncheckedCast.Distinct ctx :=
  .of_pairwise rfl (pairwise_starts_filterMap fun _ => .bind fun _ _ => .ite .none (.some rfl))

end Flutter

namespace Ios

theorem distinct_strongSelfCapture (ctx : Context) : strongSelfCapture.Distinct ctx := by
  refine .of_pairwise rfl ?_
  split
  · exact List.Pairwise.nil
  · exact pairwise_offsets_filterMap (Text.pairwise_offsetsOf _ _) fun _ => .map fun _ => rfl

theorem distinct_strongDelegate (ctx : Context) : strongDelegate.Distinct ctx :=
  .of_pairwise rfl (pairwise_groups_filterMap (p := delegateProperty) (by decide) fun _ _ =>
    .bind fun _ _ => .bind fun _ _ => .some rfl)

theorem distinct_observerLeak (ctx : Context) : observerLeak.Distinct ctx := by
  have hdiffer : ∀ c, ¬ (addObserver.mayStart c = true ∧
      (boundary ++ spaced ["Timer.scheduledTimer", "("]).mayStart c = true) := by
    intro c
    have hobserver : addObserver.mayStart c = true → c = 'N' := by
      simp [addObserver, spaced, lit, litChars, mayStart, solid]
    have htimer : (boundary ++ spaced ["Timer.scheduledTimer", "("]).mayStart c = true →
        c = 'T' := by
      simp [spaced, lit, litChars, mayStart, solid]
    rintro ⟨h, h'⟩
    obtain rfl := htimer h'
    exact absurd (hobserver h) (by decide)
  refine .of_nodup rfl (nodup_append_starts ctx.masked (by decide) (by decide) hdiffer ?_ ?_)
  · split
    · exact List.nil_sublist _
    · rw [List.map_map]
      exact List.Sublist.refl _
  · split
    · exact List.nil_sublist _
    · refine sublist_filterMap (fun m => ?_) _
      exact .bind fun _ _ => .ite (.some rfl) .none

theorem distinct_forceUnwrap (ctx : Context) : forceUnwrap.Distinct ctx := fun _ h =>
  (pairwise_assertionDetections ((pairwise_findAll _ _).filter _) h).imp Nat.ne_of_lt

theorem distinct_forcedCast (ctx : Context) : forcedCast.Distinct ctx :=
  .of_pairwise rfl (pairwise_starts_filterMap fun _ => .bind fun _ _ => .some rfl)

/-- The changes to the screen in the code of a block, but for those in work that comes back to the
main thread. -/
def updatesIn (ctx : Context) (b : Block) : List Nat :=
  ((screenUpdate.findAll (ctx.bodyOf b)).map fun m => b.body.start + m.start).filter fun at' =>
    !insideAny (ctx.blocksAfter mainOpener 0) at'

/-- No change to the screen off the main thread lies in two blocks of background work. -/
def Untangled (ctx : Context) : Prop :=
  (ctx.blocksAfter backgroundOpener 0).Pairwise fun b c =>
    ∀ at' ∈ updatesIn ctx b, c.contains at' = false

instance (ctx : Context) : Decidable (Untangled ctx) :=
  inferInstanceAs (Decidable (List.Pairwise _ _))

theorem contains_of_mem_updatesIn {ctx : Context} {b : Block} {at' : Nat}
    (h : at' ∈ updatesIn ctx b) : b.contains at' = true := by
  obtain ⟨m, hm, rfl⟩ := List.mem_map.mp (List.mem_filter.mp h).1
  exact ctx.contains_of_mem_findAll (by decide) hm

theorem distinct_backgroundUiUpdate {ctx : Context} (h : Untangled ctx) :
    backgroundUiUpdate.Distinct ctx := by
  refine .of_nodup rfl ?_
  simp only [List.map_map, Function.comp_def, List.map_id', List.filter_flatMap]
  refine List.Nodup.sublist (sublist_oncePerLine _ _ _) ?_
  rw [List.nodup_flatMap]
  constructor
  · intro b hb
    have hstarts := pairwise_starts screenUpdate (ctx.bodyOf b)
    rw [List.pairwise_map] at hstarts
    refine List.Nodup.filter _ ?_
    rw [List.nodup_iff_pairwise_ne, List.pairwise_map]
    exact hstarts.imp fun hlt => by omega
  · refine h.imp fun {b c} hbc at' hb hc => ?_
    have hapart : c.contains at' = false := hbc at' hb
    exact absurd (contains_of_mem_updatesIn hc) (by simp [hapart])

end Ios

namespace Android

theorem distinct_receiverLeak (ctx : Context) : receiverLeak.Distinct ctx := by
  refine .of_pairwise rfl ?_
  split
  · exact List.Pairwise.nil
  · rw [List.map_map]
    exact pairwise_starts _ _

theorem distinct_globalScopeLaunch (ctx : Context) : globalScopeLaunch.Distinct ctx := by
  refine .of_pairwise rfl ?_
  rw [List.map_map]
  exact pairwise_starts _ _

theorem distinct_staticContext (ctx : Context) : staticContext.Distinct ctx := by
  refine .of_pairwise rfl (pairwise_offsets_filterMap ?_ fun _ => .ite .none (.some rfl))
  split
  · exact pairwise_starts _ _
  · exact (pairwise_starts _ _).filter _

theorem distinct_notNullAssertion (ctx : Context) : notNullAssertion.Distinct ctx := fun _ h =>
  (pairwise_assertionDetections (pairwise_findAll _ _) h).imp Nat.ne_of_lt

theorem distinct_uncheckedCast (ctx : Context) : uncheckedCast.Distinct ctx :=
  .of_pairwise rfl (pairwise_starts_filterMap fun _ => .bind fun _ _ => .ite .none (.some rfl))

theorem distinct_liveDataBackgroundSet (ctx : Context) : liveDataBackgroundSet.Distinct ctx :=
  .of_pairwise rfl (pairwise_starts_filterMap fun _ =>
    .bind fun _ _ => .ite .none (.ite .none (.some rfl)))

theorem distinct_backgroundUiUpdate (ctx : Context) : backgroundUiUpdate.Distinct ctx := by
  refine .of_pairwise rfl ?_
  simp only [List.map_map, Function.comp_def, List.map_id']
  exact ((pairwise_starts _ _).filter _).sublist (sublist_oncePerLine _ _ _)

end Android

namespace ControlFlow

theorem distinct_infiniteLoop (ctx : Context) : infiniteLoop.Distinct ctx :=
  .of_pairwise rfl (pairwise_starts_filterMap fun _ => .ite .none (.some rfl))

/-- Nothing is said of the first line. -/
theorem mem_tail_of_mem_deadLines {n : Nat} : ∀ {previous : Option (List Char)}
    {lines : List (Nat × List Char)}, n ∈ deadLines previous lines → n ∈ lines.tail.map Prod.fst
  | _, [], h => by simp [deadLines] at h
  | previous, (line, text) :: rest, h => by
    have hrest : n ∈ deadLines (if text.isEmpty then previous else some text) rest →
        n ∈ rest.map Prod.fst :=
      fun h => ((List.tail_sublist rest).map _).subset (mem_tail_of_mem_deadLines h)
    rw [deadLines] at h
    split at h
    · split at h
      · next line' next hfind =>
        split at h
        · exact hrest h
        · rcases List.mem_cons.mp h with rfl | h
          · exact List.mem_map_of_mem (List.mem_of_find?_eq_some hfind)
          · exact hrest h
      · exact hrest h
    · exact hrest h

/-- A line that leaves its block is not empty, so that the first line which is not empty comes
before all that is said after it. -/
theorem lt_of_mem_deadLines {n line : Nat} {next : List Char} : ∀ {previous : Option (List Char)}
    {lines : List (Nat × List Char)}, (lines.map Prod.fst).Pairwise (· < ·) →
      lines.find? (fun l => !l.2.isEmpty) = some (line, next) → n ∈ deadLines previous lines →
        line < n
  | _, [], _, _, h => by simp [deadLines] at h
  | previous, (line', text) :: rest, hlines, hfind, h => by
    obtain ⟨hlt, hrest⟩ := List.pairwise_cons.mp hlines
    cases htext : text.isEmpty with
    | false =>
      obtain ⟨rfl, -⟩ : line' = line ∧ text = next := by
        simpa [List.find?_cons, htext] using hfind
      exact hlt n (mem_tail_of_mem_deadLines h)
    | true =>
      have hempty : leavesBlock.isIn text = false := by
        rw [List.isEmpty_iff.mp htext]
        decide
      rw [deadLines] at h
      simp only [hempty, Bool.false_and, Bool.false_eq_true, if_false, htext, if_true] at h
      simp only [List.find?_cons, htext, Bool.not_true] at hfind
      exact lt_of_mem_deadLines hrest hfind h

theorem pairwise_deadLines : ∀ {previous : Option (List Char)} {lines : List (Nat × List Char)},
    (lines.map Prod.fst).Pairwise (· < ·) → (deadLines previous lines).Pairwise (· < ·)
  | _, [], _ => List.Pairwise.nil
  | previous, (line, text) :: rest, hlines => by
    obtain ⟨-, hrest⟩ := List.pairwise_cons.mp hlines
    have hlater : (deadLines (if text.isEmpty then previous else some text) rest).Pairwise (· < ·) :=
      pairwise_deadLines hrest
    rw [deadLines]
    split
    · split
      · next line' next hfind =>
        split
        · exact hlater
        · exact List.pairwise_cons.mpr ⟨fun n hn => lt_of_mem_deadLines hrest hfind hn, hlater⟩
      · exact hlater
    · exact hlater

theorem distinct_unreachableCode {ctx : Context} (hctx : ctx.Indexed) :
    unreachableCode.Distinct ctx := by
  have hlines : (ctx.maskedLines.map fun x => (x.1, Text.trim x.2)).map Prod.fst =
      ctx.maskedLines.map Prod.fst := by
    rw [List.map_map]
    rfl
  refine .of_pairwise rfl ?_
  rw [List.map_map]
  refine Context.pairwise_onLine hctx ?_ fun line hline => ?_
  · rw [List.map_id']
    exact pairwise_deadLines (hlines ▸ Context.pairwise_maskedLines ctx)
  · have hmem := ((List.tail_sublist _).map _).subset (mem_tail_of_mem_deadLines hline)
    exact Context.onLine_indentation hctx (hlines ▸ hmem)

end ControlFlow

/-! ## The catalogue -/

namespace Rule

/-- No rule finds a place of the file in two blocks. Only iOS has a rule that takes blocks one by
one. -/
def Untangled (ctx : Context) : Prop := ctx.platform = .ios → Ios.Untangled ctx

instance (ctx : Context) : Decidable (Untangled ctx) := inferInstanceAs (Decidable (_ → _))

theorem distinct_of_mem_catalogue {ctx : Context} (hctx : ctx.Indexed) (hblocks : Untangled ctx)
    {r : Rule} (hr : r ∈ catalogue) (happlies : r.appliesTo ctx = true) : r.Distinct ctx := by
  have hreact : ∀ r ∈ React.rules, r.Distinct ctx := by
    simp only [React.rules, List.forall_mem_cons]
    exact ⟨React.distinct_effectSubscriptionLeak ctx, React.distinct_unguardedAsyncState ctx,
      React.distinct_directStateMutation ctx, React.distinct_listenerLeak ctx,
      React.distinct_nonNullAssertion ctx, React.distinct_looseEquality ctx,
      React.distinct_nativeListenerLeak ctx, by simp⟩
  have hflutter : ∀ r ∈ Flutter.rules, r.Distinct ctx := by
    simp only [Flutter.rules, List.forall_mem_cons]
    exact ⟨Flutter.distinct_streamSubscriptionLeak ctx, Flutter.distinct_undisposedController ctx,
      Flutter.distinct_setStateAfterAwait hctx, Flutter.distinct_nullAssertion ctx,
      Flutter.distinct_uncheckedCast ctx, by simp⟩
  have hios : ∀ r ∈ Ios.rules, r.appliesTo ctx = true → r.Distinct ctx := by
    have hplatform : Ios.backgroundUiUpdate.appliesTo ctx = true → ctx.platform = .ios := by
      simp [appliesTo, Ios.backgroundUiUpdate]
    simp only [Ios.rules, List.forall_mem_cons]
    exact ⟨fun _ => Ios.distinct_strongSelfCapture ctx, fun _ => Ios.distinct_strongDelegate ctx,
      fun _ => Ios.distinct_observerLeak ctx, fun _ => Ios.distinct_forceUnwrap ctx,
      fun _ => Ios.distinct_forcedCast ctx,
      fun h => Ios.distinct_backgroundUiUpdate (hblocks (hplatform h)), by simp⟩
  have handroid : ∀ r ∈ Android.rules, r.Distinct ctx := by
    simp only [Android.rules, List.forall_mem_cons]
    exact ⟨Android.distinct_receiverLeak ctx, Android.distinct_globalScopeLaunch ctx,
      Android.distinct_staticContext ctx, Android.distinct_notNullAssertion ctx,
      Android.distinct_uncheckedCast ctx, Android.distinct_liveDataBackgroundSet ctx,
      Android.distinct_backgroundUiUpdate ctx, by simp⟩
  have hcontrol : ∀ r ∈ ControlFlow.rules, r.Distinct ctx := by
    simp only [ControlFlow.rules, List.forall_mem_cons]
    exact ⟨ControlFlow.distinct_infiniteLoop ctx, ControlFlow.distinct_unreachableCode hctx,
      by simp⟩
  simp only [catalogue, List.mem_append] at hr
  rcases hr with (((hr | hr) | hr) | hr) | hr
  · exact hreact r hr
  · exact hflutter r hr
  · exact hios r hr happlies
  · exact handroid r hr
  · exact hcontrol r hr

theorem nodup_map_id : (catalogue.map id).Nodup := by decide +kernel

end Rule

end Mend
