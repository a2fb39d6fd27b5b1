import Mend.Proofs.Checked.Scan
import Mend.Proofs.Rule.Basic

/-!
# Rules on operators

Seven rules report operators: comparisons that convert types, values that are asserted not to be
null, and casts. What such a rule reports stands in the code at the place that it tells
(`OperatorRule.standsAt_of_detect`), so it reports nothing where something else stands. A rule that does
not fail on a file does not fail on it when one of these operators is exchanged for the one that
mends it (`OperatorRule.exists_detect_mended`).
-/

namespace Mend

open Text Pattern

/-- A rule that reports operators. -/
structure OperatorRule where
  rule : Rule
  /-- What the code has from a place on that is reported. -/
  shows : List Char → Bool
  /-- The operators that are reported, each with the one that mends it. -/
  mends : List (List Char × List Char)

namespace OperatorRule

/-- A loose comparison starts the text. -/
def startsLoose (s : List Char) : Bool :=
  (startsWith s "==" || startsWith s "!=") && (s.drop 2).head? != some '='

/-- The word `as` and a blank start the text. -/
def startsCast (s : List Char) : Bool :=
  startsWith s "as" && (s.drop 2).head?.any isBlank

end OperatorRule

open OperatorRule in
/-- The rules on operators. -/
def operatorRules : List OperatorRule :=
  [⟨React.looseEquality, startsLoose,
      [("==".toList, "===".toList), ("!=".toList, "!==".toList)]⟩,
    ⟨React.nonNullAssertion, (startsWith · "!."), [("!.".toList, "?.".toList)]⟩,
    ⟨Flutter.nullAssertion, (startsWith · "!."), [("!.".toList, "?.".toList)]⟩,
    ⟨Ios.forceUnwrap, (startsWith · "!."), [("!.".toList, "?.".toList)]⟩,
    ⟨Android.notNullAssertion, (startsWith · "!!"), [("!!.".toList, "?.".toList)]⟩,
    ⟨Ios.forcedCast, (startsWith · "as!"), [("as!".toList, "as?".toList)]⟩,
    ⟨Android.uncheckedCast, startsCast, [("as".toList, "as?".toList)]⟩]

namespace OperatorRule

variable {text : List Char} {m : Match}

/-- The text has something of the kind at an offset. -/
def StandsAt (shows : List Char → Bool) (text : List Char) (offset : Nat) : Prop :=
  ∃ front rest, text = front ++ rest ∧ width front = offset ∧ shows rest = true

/-! ## What stands where something is reported -/

theorem drop_eq_part {i j : Nat} (hij : i ≤ j) (hj : j ≤ text.length) :
    text.drop i = part text i j ++ text.drop j := by
  rw [← part_length, ← part_length, part_append hij hj]

theorem standsAt_offset {shows : List Char → Bool} {i : Nat} (hi : i ≤ text.length)
    (h : shows (text.drop i) = true) : StandsAt shows text ((Subject.of text).offset i) :=
  ⟨text.take i, text.drop i, (List.take_append_drop i text).symm, (Subject.offset_of hi).symm, h⟩

/-- A comparison is read as a group, and no equals sign follows. -/
theorem standsAt_looseOperator (hm : m ∈ React.looseOperator.findAll text) {span : Span}
    (hspan : m.group? 1 = some span) : StandsAt startsLoose text span.start := by
  obtain ⟨i, j, ms, hreads, hj, rfl⟩ := reads_of_mem_findAll hm
  obtain ⟨b, ms₁, ms₂, hfirst, hend, rfl⟩ := reads_append hreads
  obtain ⟨a, ns, hbefore, hoperator, rfl⟩ := reads_append_group rfl hfirst
  obtain rfl := marks_of_groupless hbefore rfl
  obtain rfl := marks_of_groupless hend rfl
  rw [group?_eq rfl rfl rfl] at hspan
  obtain rfl := Option.some.inj hspan
  have hab := hoperator.le
  have hbj := hend.le
  refine standsAt_offset (by omega) ?_
  have hnext : (text.drop b).head? ≠ some '=' := by
    cases hend with
    | left hother =>
      obtain ⟨c, hc, hne⟩ := part_of_set hother
      rw [drop_eq_part hbj hj, hc]
      rintro ⟨⟩
      cases hne
    | right hstop =>
      rw [(stop_of_textEnd hstop).1]
      simp
  rw [drop_eq_part hab (by omega), startsLoose]
  cases hoperator with
  | left hequal =>
    rw [show part text a b = ['=', '='] from part_of_lit hequal]
    simpa [startsWith] using hnext
  | right hunequal =>
    rw [show part text a b = ['!', '='] from part_of_lit hunequal]
    simpa [startsWith] using hnext

/-- A word is read where it stands, after a boundary. -/
theorem drop_of_boundary_lit {w : String} {i k : Nat} {ms : List Mark}
    (h : Reads (.of text) (boundary ++ lit w) i k ms) (hk : k ≤ text.length) :
    text.drop i = w.toList ++ text.drop k := by
  obtain ⟨_, _, _, hboundary, hword, -⟩ := reads_append h
  cases hboundary
  rw [drop_eq_part hword.le hk, part_of_lit hword]

theorem standsAt_castByForce (hm : m ∈ Ios.castByForce.findAll text) :
    StandsAt (startsWith · "as!") text m.start := by
  obtain ⟨i, j, ms, hreads, hj, rfl⟩ := reads_of_mem_findAll hm
  obtain ⟨b, _, _, hfirst, htype, -⟩ := reads_append hreads
  obtain ⟨a, _, _, hword, hgap, -⟩ := reads_append hfirst
  have hia := hword.le
  have hab := hgap.le
  have hbj := htype.le
  refine standsAt_offset (by omega) ?_
  rw [drop_of_boundary_lit hword (by omega)]
  exact List.isPrefixOf_iff_prefix.mpr (List.prefix_append _ _)

theorem standsAt_cast (hm : m ∈ Android.cast.findAll text) :
    StandsAt startsCast text m.start := by
  obtain ⟨i, j, ms, hreads, hj, rfl⟩ := reads_of_mem_findAll hm
  obtain ⟨b, _, _, hfirst, htype, -⟩ := reads_append hreads
  obtain ⟨a, _, _, hword, hgap, -⟩ := reads_append hfirst
  have hia := hword.le
  have hab := hgap.le
  have hbj := htype.le
  refine standsAt_offset (by omega) ?_
  obtain ⟨hne, hblank⟩ := part_of_many1 hgap
  obtain ⟨c, rest, hpart⟩ := List.exists_cons_of_ne_nil hne
  rw [hpart, List.all_cons, Bool.and_eq_true] at hblank
  rw [drop_of_boundary_lit hword (by omega), drop_eq_part hab (by omega), hpart]
  simp [startsCast, startsWith, hblank.1]

/-- A value that is asserted not to be null ends right before the operator. Where it ends in a
character of more than one byte the rule fails. -/
theorem standsAt_assertion {a : Checked.Assertion} (ha : a ∈ Checked.assertions) {ctx : Context}
    {ds : List Detection} (h : a.rule.detect ctx = .ok ds) {d : Detection} (hd : d ∈ ds) :
    StandsAt (startsWith · a.operator) ctx.masked d.offset := by
  obtain ⟨keep, title, suggestion, hdetect, -⟩ := Checked.Assertion.exists_detect_eq ha ctx
  have hoffsets := map_offset_assertionDetections (hdetect.symm.trans h)
  have hmem : d.offset ∈ ds.map Detection.offset := List.mem_map_of_mem hd
  rw [hoffsets] at hmem
  obtain ⟨m, hm, hoffset⟩ := List.mem_map.mp hmem
  have hfound := (List.mem_filter.mp hm).1
  obtain ⟨front, c, back, htext, hstart, -, -⟩ := Checked.Assertion.exists_of_mem_findAll hfound
  have hc : c.utf8Size = 1 := by
    by_contra hne
    have hsize := c.utf8Size_pos
    obtain ⟨e, he⟩ := (Checked.Assertion.exists_error_iff ha ctx).mpr
      ⟨m, hfound, front, c, _, htext, hstart, by omega⟩
    cases he.symm.trans h
  refine ⟨front ++ [c], a.operator.toList ++ back, by simp [htext], ?_, ?_⟩
  · rw [width_append, width, width, hc, hstart, ← hoffset]
  · exact List.isPrefixOf_iff_prefix.mpr (List.prefix_append _ _)

variable {o : OperatorRule} {ctx : Context} {ds : List Detection}

/-- What a rule reports stands in the code at the place that it tells. -/
theorem standsAt_of_detect (ho : o ∈ operatorRules) (h : o.rule.detect ctx = .ok ds) :
    ∀ d ∈ ds, StandsAt o.shows ctx.masked d.offset := by
  have hasserts : ∀ a ∈ Checked.assertions, ∀ ds, a.rule.detect ctx = .ok ds →
      ∀ d ∈ ds, StandsAt (startsWith · a.operator) ctx.masked d.offset :=
    fun a ha ds h d hd => standsAt_assertion ha h hd
  simp only [Checked.assertions, List.forall_mem_cons] at hasserts
  obtain ⟨hts, hdart, hswift, hkotlin, -⟩ := hasserts
  simp only [operatorRules, List.mem_cons, List.not_mem_nil, or_false] at ho
  rcases ho with rfl | rfl | rfl | rfl | rfl | rfl | rfl
  · obtain rfl := Except.ok.inj h
    intro d hd
    obtain ⟨m, hm, hd⟩ := List.mem_filterMap.mp hd
    refine AtMost.bind (P := StandsAt startsLoose ctx.masked) (fun span hspan => ?_) d hd
    exact .ite .none (.some (standsAt_looseOperator hm hspan))
  · exact hts ds h
  · exact hdart ds h
  · exact hswift ds h
  · exact hkotlin ds h
  · obtain rfl := Except.ok.inj h
    intro d hd
    obtain ⟨m, hm, hd⟩ := List.mem_filterMap.mp hd
    exact AtMost.bind (P := StandsAt (startsWith · "as!") ctx.masked)
      (fun type _ => .some (standsAt_castByForce hm)) d hd
  · obtain rfl := Except.ok.inj h
    intro d hd
    obtain ⟨m, hm, hd⟩ := List.mem_filterMap.mp hd
    exact AtMost.bind (P := StandsAt startsCast ctx.masked)
      (fun type _ => .ite .none (.some (standsAt_cast hm))) d hd

/-! ## Operators that are mended -/

/-- What mends an operator is not reported. -/
theorem shows_mended (ho : o ∈ operatorRules) {old new : List Char} (h : (old, new) ∈ o.mends)
    (rest : List Char) : o.shows (new ++ rest) = false := by
  simp only [operatorRules, List.mem_cons, List.not_mem_nil, or_false] at ho
  rcases ho with rfl | rfl | rfl | rfl | rfl | rfl | rfl <;>
    simp only [List.mem_cons, List.not_mem_nil, or_false, Prod.mk.injEq] at h
  · rcases h with ⟨-, rfl⟩ | ⟨-, rfl⟩ <;> rfl
  all_goals
    obtain ⟨-, rfl⟩ := h
    rfl

/-- The operators of all rules, each with the one that mends it. -/
def mended : List (List Char × List Char) :=
  [("==".toList, "===".toList), ("!=".toList, "!==".toList), ("!.".toList, "?.".toList),
    ("!!.".toList, "?.".toList), ("as!".toList, "as?".toList), ("as".toList, "as?".toList)]

/-- Which rules report an operator is seen from the operator and, for the word `as`, from the blank
that follows. -/
theorem mem_mends (ho : o ∈ operatorRules) {x : List Char × List Char} (hx : x ∈ mended)
    {rest : List Char} (hcast : x.1 = "as".toList → rest.head?.any isBlank = true)
    (h : o.shows (x.1 ++ rest) = true) : x ∈ o.mends := by
  have hforced : ¬ startsWith ("as".toList ++ rest) "as!" = true ∨ x.1 ≠ "as".toList := by
    refine or_iff_not_imp_right.mpr fun hword hstarts => ?_
    have hblank := hcast (not_not.mp hword)
    cases rest with
    | nil => cases hblank
    | cons c rest =>
      obtain rfl : '!' = c := by simpa [startsWith] using hstarts
      cases hblank
  simp only [operatorRules, List.mem_cons, List.not_mem_nil, or_false] at ho
  simp only [mended, List.mem_cons, List.not_mem_nil, or_false] at hx
  rcases ho with rfl | rfl | rfl | rfl | rfl | rfl | rfl <;>
    rcases hx with rfl | rfl | rfl | rfl | rfl | rfl <;>
    first
    | exact absurd h Bool.false_ne_true
    | exact List.mem_cons_self
    | exact List.mem_cons_of_mem _ List.mem_cons_self
    | exact absurd h (hforced.resolve_right (not_not.mpr rfl))

/-! ## Files on which a rule does not fail -/

/-- What has no `x` in it stands on one side of `x`. -/
theorem infix_of_not_mem {w front back : List Char} {x : Char} (hx : x ∉ w)
    (h : w <:+: front ++ x :: back) : w <:+: front ∨ w <:+: back := by
  have hstart {l : List Char} (hl : l <+: x :: back) (hin : l ⊆ w) : l = [] := by
    cases l with
    | nil => rfl
    | cons c l =>
      obtain ⟨rfl, -⟩ := List.cons_prefix_cons.mp hl
      exact absurd (hin List.mem_cons_self) hx
  rcases List.infix_append_iff.mp h with h | h | ⟨l, l', rfl, hl, hl'⟩
  · exact Or.inl h
  · rcases List.infix_cons_iff.mp h with h | h
    · rw [hstart h (List.Subset.refl _)]
      exact Or.inl List.nil_infix
    · exact Or.inr h
  · rw [hstart hl' (List.subset_append_right _ _), List.append_nil]
    exact Or.inl hl.isInfix

/-- A rule on null assertions does not fail exactly if the operator follows no character of more than
one byte that ends a value. -/
theorem exists_ok_iff {a : Checked.Assertion} (ha : a ∈ Checked.assertions) (ctx : Context) :
    (∃ ds, a.rule.detect ctx = .ok ds) ↔ ¬ a.FollowsWide ctx.masked := by
  rw [← Checked.Assertion.meetsWide_iff ha, ← Checked.Assertion.exists_error_iff ha]
  cases h : a.rule.detect ctx with
  | ok ds => simp
  | error e => simp

/-- No operator that is looked for follows a value anew where it was exchanged for `?.`. -/
theorem followsWide_of_exchange {a : Checked.Assertion} (ha : a ∈ Checked.assertions)
    {front old back : List Char} (h : a.FollowsWide (front ++ "?.".toList ++ back)) :
    a.FollowsWide (front ++ old ++ back) := by
  obtain ⟨f, c, b, htext, hends, hc⟩ := h
  have hsize (d : Char) (hd : d.utf8Size = 1) : d ≠ c := by
    rintro rfl
    omega
  have hmark : '?' ∉ c :: a.operator.toList := by
    have hall : ∀ a ∈ Checked.assertions, '?' ∉ a.operator.toList := by
      simp only [Checked.assertions, List.forall_mem_cons]
      decide
    rw [List.mem_cons, not_or]
    exact ⟨hsize '?' rfl, hall a ha⟩
  have hin : c :: a.operator.toList <:+: front ++ '?' :: '.' :: back :=
    ⟨f, b, by simpa using htext.symm⟩
  have hkept : c :: a.operator.toList <:+: front ++ old ++ back := by
    rcases infix_of_not_mem hmark hin with h | h
    · exact h.trans ⟨[], old ++ back, by simp⟩
    · rcases List.infix_cons_iff.mp h with h | h
      · exact absurd (List.cons_prefix_cons.mp h).1.symm (hsize '.' rfl)
      · exact h.trans ⟨front ++ old, [], by simp⟩
  obtain ⟨f', b', hkept⟩ := hkept
  exact ⟨f', c, b', by simp [← hkept], hends, hc⟩

/-- A rule that does not fail on a file does not fail on it with one operator mended. -/
theorem exists_detect_mended (ho : o ∈ operatorRules) (h : o.rule.detect ctx = .ok ds)
    {old new front back : List Char} (hmends : (old, new) ∈ o.mends)
    (hold : ctx.masked = front ++ old ++ back) {ctx' : Context}
    (hnew : ctx'.masked = front ++ new ++ back) : ∃ ds', o.rule.detect ctx' = .ok ds' := by
  have hasserts : ∀ a ∈ Checked.assertions, new = "?.".toList →
      ∀ ds, a.rule.detect ctx = .ok ds → ∃ ds', a.rule.detect ctx' = .ok ds' := by
    intro a ha hmend ds h
    rw [exists_ok_iff ha, hnew, hmend]
    exact fun hwide => (exists_ok_iff ha ctx).mp ⟨ds, h⟩
      (hold ▸ followsWide_of_exchange ha hwide)
  simp only [Checked.assertions, List.forall_mem_cons] at hasserts
  obtain ⟨hts, hdart, hswift, hkotlin, -⟩ := hasserts
  simp only [operatorRules, List.mem_cons, List.not_mem_nil, or_false] at ho
  rcases ho with rfl | rfl | rfl | rfl | rfl | rfl | rfl
  · exact ⟨_, rfl⟩
  · exact hts (Prod.mk.inj (List.mem_singleton.mp hmends)).2 ds h
  · exact hdart (Prod.mk.inj (List.mem_singleton.mp hmends)).2 ds h
  · exact hswift (Prod.mk.inj (List.mem_singleton.mp hmends)).2 ds h
  · exact hkotlin (Prod.mk.inj (List.mem_singleton.mp hmends)).2 ds h
  · exact ⟨_, rfl⟩
  · exact ⟨_, rfl⟩

end OperatorRule

end Mend
