import Mend.Proofs.Checked.Mask
import Mend.Proofs.Checked.Rules
import Mend.Proofs.Pattern.Running
import Mend.Proofs.Scan

/-!
# A scan with every offset checked

A file is masked and indexed, and its rules are run, with each cut, index and step back checked
(`Checked.content`). This is the scan that the program makes, and it is refused only where one of
the four rules on null assertions meets a match whose first character has more than one byte: one
byte after the start of the match is inside that character (`Checked.content_checked`). There is
such a match wherever the operator follows such a character (`Checked.Assertion.meetsWide_iff`).
-/

namespace Mend

open Text (BadOffset Good width)

/-! ## Characters of several bytes -/

namespace Text

variable {s : List Char} {n : Nat}

/-- A character of more than one byte starts at the offset. -/
def WideAt (s : List Char) (offset : Nat) : Prop :=
  ∃ front c back, s = front ++ c :: back ∧ width front = offset ∧ 1 < c.utf8Size

/-- One byte later is inside the character. -/
theorem WideAt.not_good (h : WideAt s n) : ¬ Good s (n + 1) := by
  obtain ⟨front, c, back, rfl, rfl, hc⟩ := h
  rintro ⟨front', back', hs, hwidth⟩
  rcases List.append_eq_append_iff.mp hs with ⟨mid, rfl, hmid⟩ | ⟨mid, rfl, -⟩
  · rw [width_append] at hwidth
    cases mid with
    | nil => simp [width] at hwidth
    | cons d mid =>
      obtain ⟨rfl, -⟩ := List.cons.inj hmid
      rw [width] at hwidth
      omega
  · rw [width_append] at hwidth
    omega

theorem before_eq_error (h : ¬ Good s n) : before n s = .error ⟨n⟩ := by
  rw [before]
  split
  · next front back hsplit =>
    exact absurd ⟨front, back, (splitAt?_append hsplit).symm, width_of_splitAt? hsplit⟩ h
  · rfl

end Text

/-- The receiver of what stands one byte after a character starts is refused exactly if that
character has more than one byte. -/
theorem receiverBefore_eq_error {s : List Char} {n : Nat} {e : BadOffset}
    (hchar : ∃ front c back, s = front ++ c :: back ∧ width front = n) :
    receiverBefore s (n + 1) = .error e ↔ Text.WideAt s n ∧ e = ⟨n + 1⟩ := by
  obtain ⟨front, c, back, hs, hn⟩ := hchar
  by_cases hc : c.utf8Size = 1
  · have hgood : Good s (n + 1) := hs ▸ hn ▸ Text.good_succ hc
    rw [receiverBefore, hgood.before_eq]
    simp only [Except.map, reduceCtorEq, false_iff]
    exact fun h => h.1.not_good hgood
  · have hwide : Text.WideAt s n := ⟨front, c, back, hs, hn, by
      have := c.utf8Size_pos
      omega⟩
    rw [receiverBefore, Text.before_eq_error hwide.not_good]
    simp only [Except.map, Except.error.injEq, hwide, true_and]
    exact eq_comm

namespace Checked

/-! ## Assertions -/

/-- A rule that looks for an operator after a value, and takes the operator to stand one byte after
the start of the match. -/
structure Assertion where
  rule : Rule
  /-- What the value may end with. -/
  ends : Char → Bool
  operator : String

/-- The rules on null assertions. -/
def assertions : List Assertion :=
  [⟨Mend.React.nonNullAssertion, fun c => Text.isWord c || c == '$' || c == ')' || c == ']', "!."⟩,
    ⟨Mend.Flutter.nullAssertion, fun c => Text.isWord c || c == ')' || c == ']', "!."⟩,
    ⟨Mend.Ios.forceUnwrap, fun c => Text.isWord c || c == ')' || c == ']', "!."⟩,
    ⟨Mend.Android.notNullAssertion, fun c => Text.isWord c || c == ')' || c == ']', "!!"⟩]

namespace Assertion

variable {a : Assertion} {text : List Char} {m : Match}

/-- What the rule looks for. -/
def pattern (a : Assertion) : Pattern := .set a.ends ++ .lit a.operator

/-- A match starts with a character of more than one byte. -/
def MeetsWide (a : Assertion) (text : List Char) : Prop :=
  ∃ m ∈ a.pattern.findAll text, Text.WideAt text m.start

/-- The operator follows a character of more than one byte that ends a value. -/
def FollowsWide (a : Assertion) (text : List Char) : Prop :=
  ∃ front c back, text = front ++ c :: (a.operator.toList ++ back) ∧ a.ends c = true ∧
    1 < c.utf8Size

/-- The pattern matches at a value's last character that the operator follows, and ends after it. -/
theorem run_eq_some {i : Nat} {e : Ending} : (a.pattern.on (.of text) .done).run i = some e ↔
    (∃ c, text[i]? = some c ∧ a.ends c = true) ∧ a.operator.toList <+: text.drop (i + 1) ∧
      e = ⟨i + 1 + a.operator.toList.length, []⟩ := by
  rw [pattern, Pattern.on_append, Pattern.run_set, Pattern.lit, Pattern.run_litChars, Matcher.done,
    Option.ite_none_right_eq_some, Option.ite_none_right_eq_some, Option.any_eq_true,
    List.isPrefixOf_iff_prefix, Option.some.injEq, eq_comm (a := e)]

/-- A match is the last character of a value with the operator after it. -/
theorem exists_of_mem_findAll (hm : m ∈ a.pattern.findAll text) : ∃ front c back,
    text = front ++ c :: (a.operator.toList ++ back) ∧ width front = m.start ∧
      width (front ++ c :: a.operator.toList) = m.stop ∧ a.ends c = true := by
  simp only [Pattern.findAll] at hm
  obtain ⟨⟨i, e⟩, hfound, rfl⟩ := List.mem_map.mp hm
  obtain ⟨⟨c, hc, hends⟩, ⟨back, hback⟩, rfl⟩ :=
    (run_eq_some (i := i) (e := e)).mp (Matcher.mem_all (Pattern.forward_on _ a.pattern) hfound).1
  obtain ⟨hlt, rfl⟩ := List.getElem?_eq_some_iff.mp hc
  have htext : text = text.take i ++ text[i] :: (a.operator.toList ++ back) := by
    rw [hback, List.getElem_cons_drop, List.take_append_drop]
  have hstop : text.take (i + 1 + a.operator.toList.length) =
      text.take i ++ text[i] :: a.operator.toList := by
    rw [List.take_add, ← hback, List.take_left, List.take_succ_eq_append_getElem hlt,
      List.append_assoc, List.singleton_append]
  have hlength := congrArg List.length hback
  rw [List.length_append, List.length_drop] at hlength
  refine ⟨text.take i, text[i], back, htext, (Subject.offset_of hlt.le).symm, ?_, hends⟩
  rw [← hstop]
  exact (Subject.offset_of (by omega)).symm

/-- The character that a match starts with is the one that is wide. -/
theorem exists_of_wideAt (hm : m ∈ a.pattern.findAll text) (hwide : Text.WideAt text m.start) :
    ∃ front c back, text = front ++ c :: (a.operator.toList ++ back) ∧
      width (front ++ c :: a.operator.toList) = m.stop ∧ a.ends c = true ∧ 1 < c.utf8Size := by
  obtain ⟨front, c, back, htext, hstart, hstop, hends⟩ := exists_of_mem_findAll hm
  obtain ⟨front', d, back', htext', hstart', hd⟩ := hwide
  obtain ⟨-, hrest⟩ := Text.append_inj_of_width (htext.symm.trans htext') (hstart.trans hstart'.symm)
  obtain ⟨rfl, -⟩ := List.cons.inj hrest
  exact ⟨front, c, back, htext, hstop, hends, hd⟩

theorem size_of_mem_operator (ha : a ∈ assertions) {c : Char} (hc : c ∈ a.operator.toList) :
    c.utf8Size = 1 := by
  have hall : ∀ a ∈ assertions, a.operator.toList.all (fun c => c.utf8Size == 1) = true := by
    simp only [assertions, List.forall_mem_cons]
    exact ⟨rfl, rfl, rfl, rfl, by simp⟩
  exact beq_iff_eq.mp (List.all_eq_true.mp (hall a ha) c hc)

/-- A match that starts before a wide character does not go on over it: its operator has none. -/
theorem stop_le_of_run (ha : a ∈ assertions) {i j : Nat} {c : Char} (hget : text[i]? = some c)
    (hc : 1 < c.utf8Size) (hj : j < i) {e : Ending}
    (h : (a.pattern.on (.of text) .done).run j = some e) : e.stop ≤ i := by
  obtain ⟨-, ⟨rest, hrest⟩, rfl⟩ := run_eq_some.mp h
  by_contra hpast
  have hinside : (text.drop (j + 1))[i - (j + 1)]? = some c := by
    rw [List.getElem?_drop, Nat.add_sub_cancel' hj, hget]
  rw [← hrest, List.getElem?_append_left (by simp only at hpast; omega)] at hinside
  exact absurd (size_of_mem_operator ha (List.mem_of_getElem? hinside)) hc.ne'

/-- Where a character that takes several bytes ends a value and the operator follows, there is a
match that starts with it. -/
theorem mem_findAll (ha : a ∈ assertions) {front back : List Char} {c : Char}
    (hends : a.ends c = true) (hc : 1 < c.utf8Size)
    (htext : text = front ++ c :: (a.operator.toList ++ back)) :
    ∃ m ∈ a.pattern.findAll text, m.start = width front := by
  have hget : text[front.length]? = some c := by
    rw [htext, List.getElem?_append_right (Nat.le_refl _), Nat.sub_self]
    rfl
  have hdrop : text.drop (front.length + 1) = a.operator.toList ++ back := by
    rw [htext, ← List.drop_drop, List.drop_left]
    rfl
  have hrun := run_eq_some.mpr ⟨⟨c, hget, hends⟩, ⟨back, hdrop.symm⟩, rfl⟩
  have hstrict : (a.pattern.on (.of text) .done).Strict := by
    intro i e h
    obtain ⟨-, -, rfl⟩ := run_eq_some.mp h
    simp only
    omega
  have hlt := (List.getElem?_eq_some_iff.mp hget).1
  refine ⟨_, List.mem_map_of_mem (Matcher.mem_all_of_run hstrict hrun (by simpa using hlt.le)
    (fun j hj e h => stop_le_of_run ha hget hc hj h) (by omega) (Nat.zero_le _)), ?_⟩
  show (Subject.of text).offset front.length = width front
  rw [Subject.offset_of hlt.le, htext, List.take_left]

/-- A rule meets such a match exactly if the operator follows such a character somewhere. -/
theorem meetsWide_iff (ha : a ∈ assertions) : a.MeetsWide text ↔ a.FollowsWide text := by
  constructor
  · rintro ⟨m, hm, hwide⟩
    obtain ⟨front, c, back, htext, -, hends, hc⟩ := exists_of_wideAt hm hwide
    exact ⟨front, c, back, htext, hends, hc⟩
  · rintro ⟨front, c, back, htext, hends, hc⟩
    obtain ⟨m, hm, hstart⟩ := mem_findAll ha hends hc htext
    exact ⟨m, hm, front, c, _, htext, hstart.symm, hc⟩

/-- The rule gives a detection for every match that starts with a wide character, and for others
unless they are passed over. -/
theorem exists_detect_eq (ha : a ∈ assertions) (ctx : Context) : ∃ keep title suggestion,
    a.rule.detect ctx = Mend.assertionDetections ctx
      ((a.pattern.findAll ctx.masked).filter keep) title suggestion ∧
    ∀ m ∈ a.pattern.findAll ctx.masked, Text.WideAt ctx.masked m.start → keep m = true := by
  have hall (ms : List Match) : ms.filter (fun _ => true) = ms := by simp
  simp only [assertions, List.mem_cons, List.not_mem_nil, or_false] at ha
  rcases ha with rfl | rfl | rfl | rfl
  · exact ⟨fun _ => true, _, _, by rw [hall]; rfl, fun _ _ _ => rfl⟩
  · exact ⟨fun _ => true, _, _, by rw [hall]; rfl, fun _ _ _ => rfl⟩
  · refine ⟨_, _, _, rfl, fun m hm hwide => ?_⟩
    obtain ⟨front, c, back, htext, hstop, -, hc⟩ := exists_of_wideAt hm hwide
    have hfront : Text.cut 0 m.stop ctx.masked = front ++ [c, '!', '.'] := by
      have hcut := Text.cut_width (front ++ [c, '!', '.']) back
      rw [List.append_assoc] at hcut
      rwa [show width (front ++ [c, '!', '.']) = m.stop from hstop,
        show front ++ ([c, '!', '.'] ++ back) = ctx.masked from htext.symm] at hcut
    rw [hfront, Bool.not_eq_true', Bool.eq_false_iff, Ne, Text.endsWith,
      List.isSuffixOf_iff_suffix]
    rintro ⟨start, htry⟩
    have hlast : start ++ ['t', 'r'] ++ ['y', '!', '.'] = front ++ [c, '!', '.'] := by
      rw [← htry, List.append_assoc]
      rfl
    obtain ⟨rfl, -⟩ := List.cons.inj (List.append_inj_right' hlast rfl)
    exact absurd hc (by decide)
  · exact ⟨fun _ => true, _, _, by rw [hall]; rfl, fun _ _ _ => rfl⟩

variable {ctx : Context} {e : BadOffset}

/-- The receiver of a match is refused or not by the character that the match starts with. -/
theorem receiver_eq_error (hm : m ∈ a.pattern.findAll text) :
    Mend.receiverBefore text (m.start + 1) = .error e ↔
      Text.WideAt text m.start ∧ e = ⟨m.start + 1⟩ := by
  obtain ⟨front, c, back, htext, hstart, -⟩ := exists_of_mem_findAll hm
  exact receiverBefore_eq_error ⟨front, c, _, htext, hstart⟩

/-- The only offset that is refused is one byte after the start of a match with a wide character. -/
theorem wideAt_of_error (ha : a ∈ assertions) (h : a.rule.detect ctx = .error e) :
    ∃ m ∈ a.pattern.findAll ctx.masked, Text.WideAt ctx.masked m.start ∧ e = ⟨m.start + 1⟩ := by
  obtain ⟨keep, title, suggestion, hdetect, -⟩ := exists_detect_eq ha ctx
  rw [hdetect] at h
  obtain ⟨m, hm, hfault⟩ := exists_error_of_mapM h
  have hfound := (List.mem_filter.mp hm).1
  rcases bind_eq_error.mp hfault with hreceiver | ⟨receiver, -, hdetection⟩
  · exact ⟨m, hfound, (receiver_eq_error hfound).mp hreceiver⟩
  · cases hdetection

/-- The rule fails on a file exactly if a match in it starts with a wide character. -/
theorem exists_error_iff (ha : a ∈ assertions) (ctx : Context) :
    (∃ e, a.rule.detect ctx = .error e) ↔ a.MeetsWide ctx.masked := by
  constructor
  · rintro ⟨e, h⟩
    obtain ⟨m, hm, hwide, -⟩ := wideAt_of_error ha h
    exact ⟨m, hm, hwide⟩
  · rintro ⟨m, hm, hwide⟩
    obtain ⟨keep, title, suggestion, hdetect, hkeep⟩ := exists_detect_eq ha ctx
    rw [hdetect]
    cases hall : Mend.assertionDetections ctx ((a.pattern.findAll ctx.masked).filter keep) title
      suggestion with
    | error e => exact ⟨e, rfl⟩
    | ok ds =>
      obtain ⟨d, hd⟩ := ok_of_mapM hall (List.mem_filter.mpr ⟨hm, hkeep m hm hwide⟩)
      have hfault := (receiver_eq_error hm).mpr ⟨hwide, rfl⟩
      simp [hfault, bind, Except.bind] at hd

end Assertion

/-! ## All rules -/

/-- The rules of the catalogue with every offset checked. Those that cut no text stand as they
are. -/
def checks : List (Rule × (Context → Except BadOffset (List Detection))) :=
  [(Mend.React.effectSubscriptionLeak, React.effectSubscriptionLeak),
    (Mend.React.unguardedAsyncState, React.unguardedAsyncState),
    (Mend.React.directStateMutation,
      afterBlocks [(Mend.React.constructorOpener, 0)] Mend.React.directStateMutation),
    (Mend.React.listenerLeak,
      afterBlocks [(Mend.React.effectOpener, 0)] Mend.React.listenerLeak),
    (Mend.React.nonNullAssertion, React.nonNullAssertion),
    (Mend.React.looseEquality, React.looseEquality),
    (Mend.React.nativeListenerLeak, React.nativeListenerLeak),
    (Mend.Flutter.streamSubscriptionLeak, Flutter.streamSubscriptionLeak),
    (Mend.Flutter.undisposedController, Mend.Flutter.undisposedController.detect),
    (Mend.Flutter.setStateAfterAwait, Flutter.setStateAfterAwait),
    (Mend.Flutter.nullAssertion, Flutter.nullAssertion),
    (Mend.Flutter.uncheckedCast, Flutter.uncheckedCast),
    (Mend.Ios.strongSelfCapture, Ios.strongSelfCapture),
    (Mend.Ios.strongDelegate, Mend.Ios.strongDelegate.detect),
    (Mend.Ios.observerLeak, Ios.observerLeak),
    (Mend.Ios.forceUnwrap, Ios.forceUnwrap),
    (Mend.Ios.forcedCast, Ios.forcedCast),
    (Mend.Ios.backgroundUiUpdate, Ios.backgroundUiUpdate),
    (Mend.Android.receiverLeak, Mend.Android.receiverLeak.detect),
    (Mend.Android.globalScopeLaunch, Mend.Android.globalScopeLaunch.detect),
    (Mend.Android.staticContext, Android.staticContext),
    (Mend.Android.notNullAssertion, Android.notNullAssertion),
    (Mend.Android.uncheckedCast, Android.uncheckedCast),
    (Mend.Android.liveDataBackgroundSet,
      afterBlocks [(Mend.Android.backgroundOpener, 120), (Mend.Android.mainOpener, 0)]
        Mend.Android.liveDataBackgroundSet),
    (Mend.Android.backgroundUiUpdate,
      afterBlocks [(Mend.Android.backgroundOpener, 120), (Mend.Android.mainOpener, 0)]
        Mend.Android.backgroundUiUpdate),
    (Mend.ControlFlow.infiniteLoop, ControlFlow.infiniteLoop),
    (Mend.ControlFlow.unreachableCode, ControlFlow.unreachableCode)]

theorem map_fst_checks : checks.map Prod.fst = Rule.catalogue := rfl

variable {ctx : Context} {e : BadOffset}

theorem check_eq (hctx : ctx.Fits) : ∀ x ∈ checks, x.2 ctx = x.1.detect ctx := by
  simp only [checks, List.forall_mem_cons]
  exact ⟨React.effectSubscriptionLeak_eq ctx, React.unguardedAsyncState_eq ctx,
    afterBlocks_eq _ _ ctx, afterBlocks_eq _ _ ctx, React.nonNullAssertion_eq hctx,
    React.looseEquality_eq hctx, React.nativeListenerLeak_eq ctx,
    Flutter.streamSubscriptionLeak_eq ctx, trivial, Flutter.setStateAfterAwait_eq ctx,
    Flutter.nullAssertion_eq hctx, Flutter.uncheckedCast_eq hctx, Ios.strongSelfCapture_eq hctx,
    trivial, Ios.observerLeak_eq ctx, Ios.forceUnwrap_eq hctx, Ios.forcedCast_eq hctx,
    Ios.backgroundUiUpdate_eq ctx, trivial, trivial, Android.staticContext_eq hctx,
    Android.notNullAssertion_eq hctx, Android.uncheckedCast_eq hctx, afterBlocks_eq _ _ ctx,
    afterBlocks_eq _ _ ctx, ControlFlow.infiniteLoop_eq hctx, ControlFlow.unreachableCode_eq hctx,
    by simp⟩

/-- What a rule objects to, with every offset checked. -/
def detect (r : Rule) : Context → Except BadOffset (List Detection) :=
  ((checks.find? fun x => x.1.id == r.id).map Prod.snd).getD r.detect

theorem detect_eq (hctx : ctx.Fits) {r : Rule} (hr : r ∈ Rule.catalogue) :
    detect r ctx = r.detect ctx := by
  rw [detect]
  cases hfind : checks.find? fun x => x.1.id == r.id with
  | none => rfl
  | some x =>
    have hmem := List.mem_of_find?_eq_some hfind
    have hid : x.1.id = r.id := by simpa using List.find?_some hfind
    have hrule : x.1 ∈ Rule.catalogue := map_fst_checks ▸ List.mem_map_of_mem hmem
    rw [← Rule.eq_of_id hrule hr hid]
    exact check_eq hctx x hmem

/-- Everything that a rule says about a file. -/
def findings (r : Rule) (ctx : Context) : Except BadOffset (List Finding) := do
  let ds ← detect r ctx
  ds.mapM (finding r ctx)

theorem findings_eq (hctx : ctx.Fits) {r : Rule} (hr : r ∈ Rule.catalogue) :
    findings r ctx = r.findings ctx := by
  rw [findings, detect_eq hctx hr, Rule.findings]
  cases r.detect ctx with
  | error e => rfl
  | ok ds => exact mapM_eq_ok fun d _ => finding_eq hctx r d

/-- The rule is one on null assertions, or never fails. -/
def AssertsOrPasses (r : Rule) : Prop :=
  (∃ a ∈ assertions, a.rule = r) ∨ ∀ ctx, ∃ ds, r.detect ctx = .ok ds

theorem assertsOrPasses {r : Rule} (hr : r ∈ Rule.catalogue) : AssertsOrPasses r := by
  have passes {r : Rule} {ds : Context → List Detection} (h : ∀ ctx, r.detect ctx = .ok (ds ctx)) :
      AssertsOrPasses r := .inr fun ctx => ⟨ds ctx, h ctx⟩
  have hassertions : ∀ a ∈ assertions, AssertsOrPasses a.rule := fun a ha => .inl ⟨a, ha, rfl⟩
  simp only [assertions, List.forall_mem_cons] at hassertions
  obtain ⟨hts, hdart, hswift, hkotlin, -⟩ := hassertions
  have hreact : ∀ r ∈ Mend.React.rules, AssertsOrPasses r := by
    simp only [Mend.React.rules, List.forall_mem_cons]
    exact ⟨passes fun _ => rfl, passes fun _ => rfl, passes fun _ => rfl, passes fun _ => rfl, hts,
      passes fun _ => rfl, passes fun _ => rfl, by simp⟩
  have hflutter : ∀ r ∈ Mend.Flutter.rules, AssertsOrPasses r := by
    simp only [Mend.Flutter.rules, List.forall_mem_cons]
    exact ⟨passes fun _ => rfl, passes fun _ => rfl, passes fun _ => rfl, hdart,
      passes fun _ => rfl, by simp⟩
  have hios : ∀ r ∈ Mend.Ios.rules, AssertsOrPasses r := by
    simp only [Mend.Ios.rules, List.forall_mem_cons]
    exact ⟨passes fun _ => rfl, passes fun _ => rfl, passes fun _ => rfl, hswift,
      passes fun _ => rfl, passes fun _ => rfl, by simp⟩
  have handroid : ∀ r ∈ Mend.Android.rules, AssertsOrPasses r := by
    simp only [Mend.Android.rules, List.forall_mem_cons]
    exact ⟨passes fun _ => rfl, passes fun _ => rfl, passes fun _ => rfl, hkotlin,
      passes fun _ => rfl, passes fun _ => rfl, passes fun _ => rfl, by simp⟩
  have hcontrol : ∀ r ∈ Mend.ControlFlow.rules, AssertsOrPasses r := by
    simp only [Mend.ControlFlow.rules, List.forall_mem_cons]
    exact ⟨passes fun _ => rfl, passes fun _ => rfl, by simp⟩
  simp only [Rule.catalogue, List.mem_append] at hr
  rcases hr with (((hr | hr) | hr) | hr) | hr
  · exact hreact r hr
  · exact hflutter r hr
  · exact hios r hr
  · exact handroid r hr
  · exact hcontrol r hr

/-- What a rule of the catalogue is refused is one byte after the start of a match with a wide
character. -/
theorem wideAt_of_findings_error (hctx : ctx.Fits) {r : Rule} (hr : r ∈ Rule.catalogue)
    (h : findings r ctx = .error e) : ∃ a ∈ assertions, a.rule = r ∧
      ∃ m ∈ a.pattern.findAll ctx.masked, Text.WideAt ctx.masked m.start ∧ e = ⟨m.start + 1⟩ := by
  rw [findings_eq hctx hr, Rule.findings, map_eq_error] at h
  rcases assertsOrPasses hr with ⟨a, ha, rfl⟩ | hpasses
  · exact ⟨a, ha, rfl, Assertion.wideAt_of_error ha h⟩
  · obtain ⟨ds, hds⟩ := hpasses ctx
    cases hds.symm.trans h

/-! ## The scan -/

/-- A file whose language is supported, masked byte by byte. -/
def of? (path : Path) (content : String) (platform : Platform) :
    Except BadOffset (Option Context) :=
  match path.language? with
  | none => .ok none
  | some language => do
    let source := content.toList
    let masked ← mask language source
    pure (some { path, source, masked, index := .of source, platform, language })

theorem of?_eq (path : Path) (content : String) (platform : Platform) :
    of? path content platform = .ok (Context.of? path content platform) := by
  rw [of?, Context.of?]
  cases path.language? with
  | none => rfl
  | some language =>
    simp only [mask_eq]
    rfl

/-- Everything that rules say about a file. -/
def run (rules : List Rule) (path : Path) (content : String) (platform : Platform) :
    Except BadOffset (List Finding) := do
  match ← of? path content platform with
  | none => pure []
  | some ctx =>
    let found ← (rules.filter fun r => r.appliesTo ctx).mapM fun r => findings r ctx
    pure found.flatten

theorem run_eq {rules : List Rule} (hrules : ∀ r ∈ rules, r ∈ Rule.catalogue) (path : Path)
    (content : String) (platform : Platform) :
    run rules path content platform = Scan.run rules path content platform := by
  rw [run, of?_eq, Scan.run]
  cases hctx : Context.of? path content platform with
  | none => rfl
  | some ctx =>
    have hfindings : ((rules.filter fun r => r.appliesTo ctx).mapM fun r => findings r ctx) =
        (rules.filter fun r => r.appliesTo ctx).mapM fun r => r.findings ctx :=
      mapM_congr fun r hr => findings_eq (Context.fits_of? hctx)
        (hrules r (List.mem_filter.mp hr).1)
    simp only [bind, Except.bind, hfindings]

/-- The findings of one file. -/
def content (path : Path) (content : String) (platform : Platform) (o : ScanOptions) :
    Except BadOffset (List Finding) := do
  let found ← run (o.rules platform) path content platform
  pure ((Scan.listed o found).take o.maxIssues)

variable {path : Path} {text : String} {platform : Platform} {o : ScanOptions}

theorem content_eq : content path text platform o = Scan.content path text platform o := by
  rw [content, run_eq fun r hr => ScanOptions.mem_catalogue_of_mem_rules hr]
  rfl

/-- A scan fails exactly if one of the rules that it runs on the file is on null assertions and
meets a wide character. -/
theorem exists_content_error_iff : (∃ e, Scan.content path text platform o = .error e) ↔
    ∃ ctx, Context.of? path text platform = some ctx ∧ ∃ a ∈ assertions,
      a.rule ∈ o.rules platform ∧ a.rule.appliesTo ctx = true ∧ a.MeetsWide ctx.masked := by
  constructor
  · rintro ⟨e, h⟩
    have hrun : Scan.run (o.rules platform) path text platform = .error e := by
      rcases bind_eq_error.mp h with hrun | ⟨found, -, hlisted⟩
      · exact hrun
      · cases hlisted
    rw [Scan.run] at hrun
    cases hctx : Context.of? path text platform with
    | none =>
      rw [hctx] at hrun
      cases hrun
    | some ctx =>
      rw [hctx] at hrun
      rcases bind_eq_error.mp hrun with hfault | ⟨found, -, hflat⟩
      · obtain ⟨r, hr, hfault⟩ := exists_error_of_mapM hfault
        obtain ⟨hr, happlies⟩ := List.mem_filter.mp hr
        rw [← findings_eq (Context.fits_of? hctx) (ScanOptions.mem_catalogue_of_mem_rules hr)]
          at hfault
        obtain ⟨a, ha, rfl, m, hm, hwide, -⟩ := wideAt_of_findings_error (Context.fits_of? hctx)
          (ScanOptions.mem_catalogue_of_mem_rules hr) hfault
        exact ⟨ctx, rfl, a, ha, hr, happlies, m, hm, hwide⟩
      · cases hflat
  · rintro ⟨ctx, hctx, a, ha, hr, happlies, hwide⟩
    cases hcontent : Scan.content path text platform o with
    | error e => exact ⟨e, rfl⟩
    | ok kept =>
      obtain ⟨found, hrun, -⟩ := bind_eq_ok.mp hcontent
      rw [Scan.run, hctx] at hrun
      obtain ⟨lists, hlists, -⟩ := bind_eq_ok.mp hrun
      obtain ⟨e, he⟩ := (Assertion.exists_error_iff ha ctx).mpr hwide
      obtain ⟨fs, hfs⟩ := ok_of_mapM hlists (List.mem_filter.mpr ⟨hr, happlies⟩)
      rw [Rule.findings, he] at hfs
      cases hfs

/-- Checked and unchecked, a scan is the same. It fails exactly if one of the rules that it runs on
the file is on null assertions and has a match that starts with a character of more than one byte,
that is, if the operator follows such a character at the end of a value. Nothing is refused while
the file is masked and indexed, and all that any rule is refused is the offset one byte after the
start of such a match. -/
theorem content_checked (path : Path) (text : String) (platform : Platform) (o : ScanOptions) :
    content path text platform o = Scan.content path text platform o ∧
    ((∃ e, Scan.content path text platform o = .error e) ↔
      ∃ ctx, Context.of? path text platform = some ctx ∧ ∃ a ∈ assertions,
        a.rule ∈ o.rules platform ∧ a.rule.appliesTo ctx = true ∧ a.MeetsWide ctx.masked) ∧
    (∀ a ∈ assertions, ∀ masked, a.MeetsWide masked ↔ a.FollowsWide masked) ∧
    of? path text platform = .ok (Context.of? path text platform) ∧
    ∀ ctx, Context.of? path text platform = some ctx → ∀ r ∈ Rule.catalogue, ∀ e,
      findings r ctx = .error e → ∃ a ∈ assertions, a.rule = r ∧
        ∃ m ∈ a.pattern.findAll ctx.masked, Text.WideAt ctx.masked m.start ∧ e = ⟨m.start + 1⟩ :=
  ⟨content_eq, exists_content_error_iff, fun _ ha _ => Assertion.meetsWide_iff ha,
    of?_eq path text platform,
    fun _ hctx _ hr _ h => wideAt_of_findings_error (Context.fits_of? hctx) hr h⟩

end Checked

end Mend
