import Mend.Proofs.Synthesis.Lines
import Mend.Proofs.Synthesis.Shapes

/-!
# Brackets in drafted lines

What a template for one line does to the brackets of a text. Some put a word or an operator in the
place of another, so that the line counts as before wherever it stands, even inside a comment or a
string (`Draft.Swaps`). Some take over a statement and put brackets around it, so that the line counts
as before if it ends in code (`Draft.Wraps`): after a comment at its end the closing brackets would
not be seen. One puts a guard on a line of its own (`Draft.Guards`).
-/

namespace Mend

open Attempt Text

namespace Synthesis

/-- A replaced part stands in the line, and the new one in its place. -/
theorem replaceAt_eq {offset length : Nat} {new line result front u rest : List Char}
    (hline : line = front ++ u ++ rest) (hfront : width front = offset) (hu : width u = length)
    (h : replaceAt offset length new line = .ok result) : result = front ++ new ++ rest := by
  simp only [replaceAt, bind_eq_ok] at h
  obtain ⟨front', hfront', back, hback, h⟩ := h
  obtain rfl := Except.ok.inj h
  have hwidth : width (front ++ u) = offset + length := by rw [width_append, hfront, hu]
  rw [onward_eq hline hwidth hback]
  rw [List.append_assoc] at hline
  rw [before_eq hline hfront hfront']

end Synthesis

/-! ## Drafts for one line -/

namespace Draft

/-- The draft puts one line in the place of another, and it counts like that wherever it stands. -/
def Swaps (d : Draft) : Prop :=
  ∃ line new, d.replaced = [line] ∧ d.suggested = [new] ∧ Balance.Swappable line new

theorem swaps_ofLine {w : Window} {d : Draft} {title description : String}
    {change : List Char → Attempt (List Char)} (h : (ofLine w title description change).Gives d)
    (hchange : ∀ {line new}, w.focusText? = some line → (change line).Gives new →
      Balance.Swappable line new) : d.Swaps := by
  simp only [ofLine, gives_bind, gives_of, gives_pure] at h
  obtain ⟨line, hline, new, hnew, rfl⟩ := h
  exact ⟨line, new, rfl, rfl, hchange hline hnew⟩

theorem Swaps.withAlternative {d : Draft} (h : d.Swaps) (title tradeoff : String)
    (confidence : Nat) (code : Option (List Char)) :
    (d.withAlternative title tradeoff confidence code).Swaps := h

theorem swaps_ofLine_withAlternative {w : Window} {d : Draft} {title description other : String}
    {tradeoff : String} {confidence : Nat} {code : Option (List Char)}
    {change : List Char → Attempt (List Char)}
    (h : (ofLine w title description change >>= fun draft =>
      pure (draft.withAlternative other tradeoff confidence code)).Gives d)
    (hchange : ∀ {line new}, w.focusText? = some line → (change line).Gives new →
      Balance.Swappable line new) : d.Swaps := by
  simp only [gives_bind, gives_pure] at h
  obtain ⟨draft, hdraft, rfl⟩ := h
  exact (swaps_ofLine hdraft hchange).withAlternative _ _ _ _

/-- What comes before the column in the line ends in code. -/
def ReachedInCode (language : Language) (column : Option Nat) (line : List Char) : Prop :=
  ∀ n front, Synthesis.offsetOf? column = some n → before n line = .ok front →
    Mask.InCode language front

/-- The draft puts one line in the place of another. The new one counts like the old one wherever it
stands, or else wraps it if the issue stands in code and the line ends in code. -/
def Wraps (language : Language) (column : Option Nat) (d : Draft) : Prop :=
  ∃ line new, d.replaced = [line] ∧ d.suggested = [new] ∧ (Balance.Swappable line new ∨
    (Mask.InCode language line → ReachedInCode language column line →
      Balance.Wraps language line new))

theorem wraps_ofLine {language : Language} {column : Option Nat} {w : Window} {d : Draft}
    {title description : String} {change : List Char → Attempt (List Char)}
    (h : (ofLine w title description change).Gives d)
    (hchange : ∀ {line new}, w.focusText? = some line → (change line).Gives new →
      Balance.Swappable line new ∨ (Mask.InCode language line →
        ReachedInCode language column line → Balance.Wraps language line new)) :
    d.Wraps language column := by
  simp only [ofLine, gives_bind, gives_of, gives_pure] at h
  obtain ⟨line, hline, new, hnew, rfl⟩ := h
  exact ⟨line, new, rfl, rfl, hchange hline hnew⟩

/-- The draft puts a line that opens and closes its brackets before another. -/
def Guards (d : Draft) : Prop :=
  ∃ line guard, d.replaced = [line] ∧ d.suggested = [guard, line] ∧
    guard.all Mask.isQuiet = true ∧ Balance.Encloses guard []

end Draft

namespace Synthesis

open Draft Balance Pattern

variable {w : Window} (column : Option Nat) {d : Draft}

/-! ## Changes in place -/

theorem swappable_replaceAt {offset length : Nat} {new line result u rest : List Char}
    (hswap : Swappable u new) (hrest : from? offset line = some (u ++ rest))
    (hu : width u = length) (h : replaceAt offset length new line = .ok result) :
    Swappable line result := by
  rw [from?_eq] at hrest
  obtain ⟨⟨front, back⟩, hsplit, rfl⟩ := Option.map_eq_some_iff.mp hrest
  have hline : line = front ++ u ++ rest := by rw [List.append_assoc, splitAt?_append hsplit]
  rw [replaceAt_eq hline (width_of_splitAt? hsplit) hu h, hline]
  exact hswap.inside front rest

theorem swappable_slice {lo hi length : Nat} {new line result u : List Char}
    (hswap : Swappable u new) (hslice : slice? lo hi line = some u) (hlength : hi - lo = length)
    (h : replaceAt lo length new line = .ok result) : Swappable line result := by
  obtain ⟨rest, hrest, hu⟩ := exists_from?_of_slice? hslice
  exact swappable_replaceAt hswap hrest (hu.trans hlength) h

theorem swaps_strictEquality (h : (strictEquality column w).Gives d) : d.Swaps := by
  simp only [strictEquality, gives_bind, gives_of] at h
  obtain ⟨at', -, h⟩ := h
  refine swaps_ofLine h fun _ hnew => ?_
  simp only [gives_bind, gives_of, gives_lift, gives_require] at hnew
  obtain ⟨operator, hoperator, strict, hstrict, -, -, -, -, hreplace⟩ := hnew
  have hswap : Swappable operator strict := by
    split at hstrict
    · next heq =>
      obtain rfl := Option.some.inj hstrict
      rw [beq_iff_eq.mp heq]
      exact .of_quiet (by decide)
    · split at hstrict
      · next heq =>
        obtain rfl := Option.some.inj hstrict
        rw [beq_iff_eq.mp heq]
        exact .of_quiet (by decide)
      · cases hstrict
  exact swappable_slice hswap hoperator (Nat.add_sub_cancel_left at' 2) hreplace

theorem swaps_optionalChaining (h : (optionalChaining column w).Gives d) : d.Swaps := by
  rw [optionalChaining, gives_bind] at h
  obtain ⟨at', -, h⟩ := h
  have hswap : Swappable "!.".toList "?.".toList :=
    .of_quiet (by decide)
  split at h
  all_goals
    refine swaps_ofLine_withAlternative h fun _ hnew => ?_
    simp only [gives_bind, gives_of, gives_lift, gives_require] at hnew
    obtain ⟨operator, hoperator, -, heq, hreplace⟩ := hnew
    rw [beq_iff_eq.mp heq] at hoperator
    exact swappable_slice hswap hoperator (Nat.add_sub_cancel_left at' 2) hreplace

theorem swaps_kotlinSafeCall (h : (kotlinSafeCall column w).Gives d) : d.Swaps := by
  rw [kotlinSafeCall, gives_bind] at h
  obtain ⟨-, -, h⟩ := h
  rw [gives_bind] at h
  obtain ⟨at', -, h⟩ := h
  have hswap : Swappable "!!.".toList "?.".toList :=
    .of_quiet (by decide)
  refine swaps_ofLine_withAlternative h fun _ hnew => ?_
  simp only [gives_bind, gives_of, gives_lift, gives_require] at hnew
  obtain ⟨operator, hoperator, -, heq, hreplace⟩ := hnew
  rw [beq_iff_eq.mp heq] at hoperator
  exact swappable_slice hswap hoperator (Nat.add_sub_cancel_left at' 3) hreplace

theorem startsWith_eq {s : List Char} {word : String} (h : Text.startsWith s word = true) :
    ∃ rest, s = word.toList ++ rest := by
  obtain ⟨rest, rfl⟩ := List.isPrefixOf_iff_prefix.mp h
  exact ⟨rest, rfl⟩

theorem swaps_conditionalCastSwift (h : (conditionalCastSwift column w).Gives d) : d.Swaps := by
  rw [conditionalCastSwift, gives_bind] at h
  obtain ⟨at', -, h⟩ := h
  have hswap : Swappable "as!".toList "as?".toList :=
    .of_quiet (by decide)
  refine swaps_ofLine_withAlternative h fun _ hnew => ?_
  simp only [gives_bind, gives_of, gives_lift, gives_require] at hnew
  obtain ⟨rest, hrest, -, hstarts, hreplace⟩ := hnew
  obtain ⟨later, rfl⟩ := startsWith_eq hstarts
  exact swappable_replaceAt hswap hrest (by decide) hreplace

theorem swaps_conditionalCastKotlin (h : (conditionalCastKotlin column w).Gives d) : d.Swaps := by
  rw [conditionalCastKotlin, gives_bind] at h
  obtain ⟨-, -, h⟩ := h
  rw [gives_bind] at h
  obtain ⟨at', -, h⟩ := h
  have hswap : Swappable "as".toList "as?".toList :=
    .of_quiet (by decide)
  refine swaps_ofLine_withAlternative h fun _ hnew => ?_
  simp only [gives_bind, gives_of, gives_lift, gives_require, Bool.and_eq_true] at hnew
  obtain ⟨rest, hrest, -, ⟨hstarts, -⟩, hreplace⟩ := hnew
  obtain ⟨later, rfl⟩ := startsWith_eq hstarts
  exact swappable_replaceAt hswap hrest (by decide) hreplace

theorem swaps_lifecycleScope (h : (lifecycleScope column w).Gives d) : d.Swaps := by
  simp only [lifecycleScope, gives_bind, gives_of, gives_lift, gives_require, gives_pure] at h
  obtain ⟨at', -, line, hline, rest, hrest, -, hstarts, front, hfront, draft, hdraft, rfl⟩ := h
  have hswap : Swappable "GlobalScope.".toList "lifecycleScope.".toList :=
    .of_quiet (by decide)
  refine (swaps_ofLine hdraft fun {line' new} hline' hnew => ?_).withAlternative _ _ _ _
  obtain rfl : line = line' := Option.some.inj (hline.symm.trans hline')
  rw [gives_pure] at hnew
  subst hnew
  obtain ⟨later, rfl⟩ := startsWith_eq hstarts
  obtain ⟨rfl, -⟩ := append_of_before hfront hrest
  have hdrop : ("GlobalScope.".toList ++ later).drop "GlobalScope.".length = later :=
    List.drop_left' (by decide)
  have hname : "lifecycleScope".toList ++ ['.'] = "lifecycleScope.".toList := by decide
  rw [hdrop, List.append_assoc front, hname, ← List.append_assoc]
  exact hswap.inside front later

theorem swappable_optionalType {line new : List Char} (hn : '\n' ∉ line)
    (h : optionalType line = .ok new) : Swappable line new := by
  unfold optionalType at h
  split at h
  · rw [Except.ok.inj h]
    exact .refl new
  · next m hm =>
    obtain ⟨blanks, hblanks, -⟩ := dropEndWhile_append isBlank line
    obtain ⟨front, type, hparts, hwidth, hinert, hlen⟩ :=
      plainTypeEnd_parts (fun hmem => hn ((prefix_trimEnd line).subset hmem)) hm
    have hline : line = trimEnd line ++ [] ++ blanks := by rwa [List.append_nil]
    have hswap : Swappable type (type ++ ['?']) := by
      refine .of_quiet ⟨quiet_of_inert hinert, ?_, hlen, by simp; omega, ?_⟩
      · rw [List.all_append, quiet_of_inert hinert]
        decide
      · rw [List.filter_append, show ['?'].filter isBracket = [] by decide, List.append_nil]
    have hinside := hswap.inside front blanks
    rw [← List.append_assoc front, ← hparts] at hinside
    rw [replaceAt_eq hline hwidth rfl h]
    rwa [← show line = trimEnd line ++ blanks from hblanks] at hinside

theorem swaps_weakDelegate (hw : w.Plain) (h : (weakDelegate column w).Gives d) : d.Swaps := by
  rw [weakDelegate] at h
  refine swaps_ofLine_withAlternative h fun {line new} hline hnew => ?_
  simp only [gives_bind, gives_of, gives_lift, gives_require] at hnew
  obtain ⟨-, -, m, hm, span, hspan, declared, hdeclared, hoptional⟩ := hnew
  have hdeclares : Swappable line declared := by
    obtain ⟨front, later, hparts, hwidth⟩ := variableStart_parts hm hspan
    have hswap : Swappable "var".toList "weak var".toList :=
      .of_quiet (by decide)
    have hcut : line = front ++ [] ++ ("var".toList ++ later) := by
      rw [hparts, List.append_nil, List.append_assoc]
    rw [replaceAt_eq hcut hwidth rfl hdeclared, hparts]
    have hinside := hswap.inside front later
    have hword : "weak var".toList = "weak ".toList ++ "var".toList := by decide
    rw [hword] at hinside
    simpa only [List.append_assoc] using hinside
  exact hdeclares.trans (swappable_optionalType
    (fun hmem => not_mem_of_focusText hw hline (hdeclares.newline hmem)) hoptional)

/-! ## Statements that are wrapped -/

theorem wraps_setStateCall {language : Language} (hw : w.Plain)
    (h : (setStateCall column w).Gives d) : d.Wraps language column := by
  refine wraps_ofLine h fun {line new} hline hnew => Or.inr fun hcode _ => ?_
  simp only [gives_bind, gives_of, gives_pure] at hnew
  obtain ⟨m, hm, rfl⟩ := hnew
  obtain ⟨between, rest, hparts, hindent, hfield, hbetween, hrest⟩ :=
    stateWrite_parts (not_mem_of_focusText hw hline) hm
  generalize captured m 1 line = indent at *
  generalize captured m 2 line = field at *
  generalize captured m 3 line = value at *
  subst hparts
  refine wraps_of_inert hcode ?_ ?_ hrest (by decide) ?_
  · simp only [List.all_append, hindent, hfield, hbetween]
    decide
  · simp only [List.all_append, quiet_of_inert hindent, quiet_of_inert hfield]
    decide
  · refine ((Encloses.pair .paren).nest (.pair .brace)).of_filter ?_ (by decide)
    simp only [List.filter_append, filter_of_inert hindent, filter_of_inert hfield]
    decide

/-- A statement that runs on the main thread is wrapped, but for what ends it. -/
theorem onMainThread?_parts {statement wrapped : List Char} (hn : '\n' ∉ statement)
    (h : onMainThread? w statement = some wrapped) : ∃ f g q q', statement = g ++ q ∧
      wrapped = f ++ g ++ q' ∧ f.all Mask.isQuiet = true ∧ q.all isInert = true ∧
      q'.all Mask.isQuiet = true ∧ Encloses f q' := by
  unfold onMainThread? at h
  split at h
  · exact ⟨_, statement, [], _, (List.append_nil _).symm, (Option.some.inj h).symm, by decide, rfl,
      by decide, (Encloses.pair .brace).of_filter (by decide) (by decide)⟩
  · refine ⟨_, statement, [], _, (List.append_nil _).symm, (Option.some.inj h).symm, ?_, rfl,
      by decide, ?_⟩
    · split <;> decide
    · split
      · exact ((Encloses.blank .paren).nest (.pair .brace)).of_filter (by decide) (by decide)
      · exact (Encloses.pair .brace).of_filter (by decide) (by decide)
  · obtain ⟨semicolons, hsemicolons, hall⟩ := dropEndWhile_append (· == ';') statement
    obtain ⟨blanks, hblanks, hall'⟩ := dropEndWhile_append isBlank (dropEndWhile (· == ';') statement)
    rw [hblanks, List.append_assoc] at hsemicolons
    refine ⟨_, _, blanks ++ semicolons, _, hsemicolons, (Option.some.inj h).symm, by decide, ?_,
      by decide, ((Encloses.pair .paren).nest (.blank .paren)).of_filter (by decide) (by decide)⟩
    have hin : blanks ++ semicolons ⊆ statement := by
      rw [hsemicolons]
      exact List.subset_append_right _ _
    rw [List.all_append, Bool.and_eq_true]
    refine ⟨inert_of_blank hall' fun hmem => hn (hin (List.mem_append_left _ hmem)),
      inert_of_all (by decide) hall fun hmem => hn (hin (List.mem_append_right _ hmem))⟩
  · cases h

theorem wraps_mainThreadDispatch {language : Language} (hw : w.Plain)
    (h : (mainThreadDispatch column w).Gives d) : d.Wraps language column := by
  simp only [mainThreadDispatch, gives_bind, gives_of, gives_require, gives_pure] at h
  obtain ⟨line, hline, -, -, wrapped, hwrapped, rfl⟩ := h
  have hplain := not_mem_of_focusText hw hline
  have hwraps (hcode : Mask.InCode language line) :
      Balance.Wraps language line (indentation line ++ wrapped) := by
    have hstart : line = indentation line ++ trimStart line :=
      (List.takeWhile_append_dropWhile).symm
    obtain ⟨blanks, hblanks, hall⟩ := dropEndWhile_append isBlank (trimStart line)
    obtain ⟨f, g, q, q', hstatement, rfl, hf, hq, hq', hencloses⟩ :=
      onMainThread?_parts (fun hmem => hplain ((infix_trim _).subset hmem)) hwrapped
    have hindent : (indentation line).all isInert = true :=
      inert_of_blank List.all_takeWhile fun hmem => hplain ((List.takeWhile_prefix _).subset hmem)
    have hparts : line = indentation line ++ g ++ (q ++ blanks) := by
      conv_lhs => rw [hstart, hblanks]
      rw [show dropEndWhile isBlank (trimStart line) = g ++ q from hstatement]
      simp only [List.append_assoc]
    have hend : (q ++ blanks).all isInert = true := by
      rw [List.all_append, hq, Bool.true_and]
      refine inert_of_blank hall fun hmem => hplain ?_
      rw [hparts]
      simp [hmem]
    generalize indentation line = indent at *
    subst hparts
    rw [show indent ++ (f ++ g ++ q') = indent ++ f ++ g ++ q' by simp only [List.append_assoc]]
    refine wraps_of_inert hcode hindent ?_ hend hq' (hencloses.of_filter ?_ rfl)
    · rw [List.all_append, quiet_of_inert hindent, hf]
      rfl
    · rw [List.filter_append, filter_of_inert hindent, List.nil_append]
  split <;> exact ⟨line, _, rfl, rfl, Or.inr fun hcode _ => hwraps hcode⟩

/-- An assigned value becomes the argument of a call. -/
theorem wraps_valueWrite {language : Language} {front rest : List Char} {m : Match}
    (hplain : '\n' ∉ rest) (hm : valueWrite.find? rest = some m)
    (hcode : Mask.InCode language (front ++ rest)) (hfront : Mask.InCode language front) :
    Balance.Wraps language (front ++ rest) (front ++ captured m 1 rest ++ ".postValue(".toList ++
      captured m 2 rest ++ [')'] ++ captured m 3 rest) := by
  obtain ⟨between, blanks, blanks', hparts, howner, hbetween, hblanks, hsemicolon, hblanks'⟩ :=
    valueWrite_parts hplain hm
  generalize captured m 1 rest = owner at *
  generalize captured m 2 rest = value at *
  generalize captured m 3 rest = semicolon at *
  subst hparts
  have hf : (owner ++ ".value".toList ++ between).all isInert = true := by
    simp only [List.all_append, howner, hbetween]
    decide
  have hf' : (owner ++ ".postValue(".toList).all Mask.isQuiet = true := by
    rw [List.all_append, quiet_of_inert howner]
    decide
  have hq : (blanks ++ semicolon ++ blanks').all isInert = true := by
    simp only [List.all_append, hblanks, hsemicolon, hblanks', Bool.and_self]
  have hq' : ([')'] ++ semicolon).all Mask.isQuiet = true := by
    rw [List.all_append, quiet_of_inert hsemicolon]
    decide
  have hencloses : Encloses (owner ++ ".postValue(".toList) ([')'] ++ semicolon) := by
    refine (Encloses.pair .paren).of_filter ?_ ?_
    · rw [List.filter_append, filter_of_inert howner]
      decide
    · rw [List.filter_append, filter_of_inert hsemicolon]
      decide
  have hwraps := @wraps_of_parts language front _ _ value _ _ (by simpa using hcode) hfront hf
    hf' (hfront.fresh_append (quiet_of_inert hf) (by simp; omega))
    (hfront.fresh_append hf' (by simp)) hq hq' hencloses
  simpa only [List.append_assoc] using hwraps

/-- The call of one method becomes that of another. -/
theorem swappable_valueCall {front rest : List Char} {m : Match} (hplain : '\n' ∉ rest)
    (hm : valueCall.find? rest = some m) : Balance.Swappable (front ++ rest)
      (front ++ captured m 1 rest ++ ".postValue(".toList ++ Text.after m.stop rest) := by
  obtain ⟨blanks, later, hparts, hblanks, hlater⟩ := valueCall_parts hplain hm
  rw [hlater]
  generalize captured m 1 rest = owner at *
  subst hparts
  have hswap : Swappable (".setValue".toList ++ blanks ++ ['(']) ".postValue(".toList := by
    refine .of_quiet ⟨?_, by decide, by simp, by decide, ?_⟩
    · simp only [List.all_append, quiet_of_inert hblanks]
      decide
    · simp only [List.filter_append, filter_of_inert hblanks]
      decide
  have hinside := hswap.inside (front ++ owner) later
  simpa only [List.append_assoc] using hinside

theorem wraps_liveDataPostValue {language : Language} (hw : w.Plain)
    (h : (liveDataPostValue column w).Gives d) : d.Wraps language column := by
  rw [liveDataPostValue, gives_bind] at h
  obtain ⟨at', hat, h⟩ := h
  rw [gives_of] at hat
  refine wraps_ofLine h fun {line new} hline hnew => ?_
  simp only [gives_bind, gives_of, gives_lift] at hnew
  obtain ⟨rest, hrest, front, hfront, hnew⟩ := hnew
  have hplain : '\n' ∉ rest := fun hmem =>
    not_mem_of_focusText hw hline ((suffix_of_from? hrest).subset hmem)
  obtain ⟨rfl, -⟩ := append_of_before hfront hrest
  split at hnew
  · next m hm =>
    rw [gives_pure] at hnew
    subst hnew
    exact Or.inr fun hcode hreached =>
      wraps_valueWrite hplain hm hcode (hreached at' front hat hfront)
  · simp only [gives_bind, gives_of, gives_pure] at hnew
    obtain ⟨m, hm, rfl⟩ := hnew
    exact Or.inl (swappable_valueCall hplain hm)

/-! ## Guards -/

theorem guards_mountedGuard (hw : w.Plain) (h : (mountedGuard column w).Gives d) : d.Guards := by
  simp only [mountedGuard, gives_bind, gives_of, gives_require, gives_pure] at h
  obtain ⟨line, hline, -, -, rfl⟩ := h
  have hplain := not_mem_of_focusText hw hline
  have hindent : (indentation line).all isInert = true :=
    inert_of_blank List.all_takeWhile fun hmem => hplain ((List.takeWhile_prefix _).subset hmem)
  refine ⟨line, _, rfl, rfl, ?_, (Encloses.blank .paren).of_filter ?_ rfl⟩
  · rw [List.all_append, quiet_of_inert hindent]
    decide
  · rw [List.filter_append, filter_of_inert hindent]
    decide

end Synthesis

end Mend
