import Mend.Proofs.Rule.Operators
import Mend.Proofs.Synthesis.Brackets
import Mend.Synthesis.Template

/-!
# Operators in drafted lines

The templates for comparisons, null assertions and casts put one operator in the place of another at
the column of the issue, and leave the rest of the line alone (`Template.exchanges_of_mem`).
-/

namespace Mend

open Attempt Text

/-! ## Drafts that exchange an operator -/

namespace Draft

/-- The draft puts the operator that mends another in its place at the column, in one line. The word
`as` has a blank after it. -/
def Exchanges (column : Option Nat) (d : Draft) : Prop :=
  ∃ x ∈ OperatorRule.mended, ∃ front rest, d.replaced = [front ++ x.1 ++ rest] ∧
    d.suggested = [front ++ x.2 ++ rest] ∧ Synthesis.offsetOf? column = some (width front) ∧
    (x.1 = "as".toList → rest.head?.any isBlank = true)

theorem Exchanges.withAlternative {column : Option Nat} {d : Draft} (h : d.Exchanges column)
    (title tradeoff : String) (confidence : Nat) (code : Option (List Char)) :
    (d.withAlternative title tradeoff confidence code).Exchanges column := h

variable {w : Window} {column : Option Nat} {d : Draft} {title description : String}
  {change : List Char → Attempt (List Char)}

theorem exists_of_ofLine (h : (ofLine w title description change).Gives d) :
    ∃ line new, (change line).Gives new ∧ d.replaced = [line] ∧ d.suggested = [new] := by
  simp only [ofLine, gives_bind, gives_of, gives_pure] at h
  obtain ⟨line, -, new, hnew, rfl⟩ := h
  exact ⟨line, new, hnew, rfl, rfl⟩

theorem exists_of_ofLine_withAlternative {other tradeoff : String} {confidence : Nat}
    {code : Option (List Char)} (h : (ofLine w title description change >>= fun draft =>
      pure (draft.withAlternative other tradeoff confidence code)).Gives d) :
    ∃ line new, (change line).Gives new ∧ d.replaced = [line] ∧ d.suggested = [new] := by
  simp only [gives_bind, gives_pure] at h
  obtain ⟨draft, hdraft, rfl⟩ := h
  exact exists_of_ofLine (d := draft) hdraft

end Draft

namespace Synthesis

variable {column : Option Nat} {w : Window} {d : Draft} {offset length : Nat}

/-- The operator stands at the offset and is replaced there. -/
theorem exchanges_replaceAt {x : List Char × List Char} (hx : x ∈ OperatorRule.mended)
    {line new rest : List Char} (hreplaced : d.replaced = [line]) (hsuggested : d.suggested = [new])
    (hcolumn : offsetOf? column = some offset) (hrest : from? offset line = some (x.1 ++ rest))
    (hlength : width x.1 = length) (hnew : replaceAt offset length x.2 line = .ok new)
    (hcast : x.1 = "as".toList → rest.head?.any isBlank = true) : d.Exchanges column := by
  obtain ⟨front, hline, hwidth⟩ := exists_of_from? hrest
  rw [← List.append_assoc] at hline
  exact ⟨x, hx, front, rest, hline ▸ hreplaced,
    replaceAt_eq hline hwidth hlength hnew ▸ hsuggested, hwidth ▸ hcolumn, hcast⟩

theorem exchanges_slice {x : List Char × List Char} (hx : x ∈ OperatorRule.mended)
    {line new : List Char} (hreplaced : d.replaced = [line]) (hsuggested : d.suggested = [new])
    (hcolumn : offsetOf? column = some offset)
    (hslice : slice? offset (offset + length) line = some x.1)
    (hnew : replaceAt offset length x.2 line = .ok new) (hcast : x.1 ≠ "as".toList) :
    d.Exchanges column := by
  obtain ⟨rest, hrest, hwidth⟩ := exists_from?_of_slice? hslice
  exact exchanges_replaceAt hx hreplaced hsuggested hcolumn hrest
    (hwidth.trans (Nat.add_sub_cancel_left _ _)) hnew fun h => absurd h hcast

theorem exchanges_strictEquality (h : (strictEquality column w).Gives d) : d.Exchanges column := by
  simp only [strictEquality, gives_bind, gives_of] at h
  obtain ⟨offset, hcolumn, h⟩ := h
  obtain ⟨line, new, hnew, hreplaced, hsuggested⟩ := Draft.exists_of_ofLine h
  simp only [gives_bind, gives_of, gives_lift, gives_require] at hnew
  obtain ⟨operator, hoperator, strict, hstrict, -, -, -, -, hreplace⟩ := hnew
  have hx : (operator, strict) ∈ OperatorRule.mended ∧ operator ≠ "as".toList := by
    split at hstrict
    · next heq =>
      obtain rfl := Option.some.inj hstrict
      rw [beq_iff_eq.mp heq]
      decide
    · split at hstrict
      · next heq =>
        obtain rfl := Option.some.inj hstrict
        rw [beq_iff_eq.mp heq]
        decide
      · cases hstrict
  exact exchanges_slice (x := (operator, strict)) hx.1 hreplaced hsuggested hcolumn hoperator
    hreplace hx.2

theorem exchanges_optionalChaining (h : (optionalChaining column w).Gives d) :
    d.Exchanges column := by
  rw [optionalChaining, gives_bind] at h
  obtain ⟨offset, hcolumn, h⟩ := h
  rw [gives_of] at hcolumn
  split at h
  all_goals
    obtain ⟨line, new, hnew, hreplaced, hsuggested⟩ := Draft.exists_of_ofLine_withAlternative h
    simp only [gives_bind, gives_of, gives_lift, gives_require] at hnew
    obtain ⟨operator, hoperator, -, heq, hreplace⟩ := hnew
    rw [beq_iff_eq.mp heq] at hoperator
    exact exchanges_slice (x := ("!.".toList, "?.".toList)) (by decide) hreplaced hsuggested hcolumn
      hoperator hreplace (by decide)

theorem exchanges_kotlinSafeCall (h : (kotlinSafeCall column w).Gives d) :
    d.Exchanges column := by
  rw [kotlinSafeCall, gives_bind] at h
  obtain ⟨-, -, h⟩ := h
  rw [gives_bind] at h
  obtain ⟨offset, hcolumn, h⟩ := h
  rw [gives_of] at hcolumn
  obtain ⟨line, new, hnew, hreplaced, hsuggested⟩ := Draft.exists_of_ofLine_withAlternative h
  simp only [gives_bind, gives_of, gives_lift, gives_require] at hnew
  obtain ⟨operator, hoperator, -, heq, hreplace⟩ := hnew
  rw [beq_iff_eq.mp heq] at hoperator
  exact exchanges_slice (x := ("!!.".toList, "?.".toList)) (by decide) hreplaced hsuggested hcolumn
    hoperator hreplace (by decide)

theorem exchanges_conditionalCastSwift (h : (conditionalCastSwift column w).Gives d) :
    d.Exchanges column := by
  rw [conditionalCastSwift, gives_bind] at h
  obtain ⟨offset, hcolumn, h⟩ := h
  rw [gives_of] at hcolumn
  obtain ⟨line, new, hnew, hreplaced, hsuggested⟩ := Draft.exists_of_ofLine_withAlternative h
  simp only [gives_bind, gives_of, gives_lift, gives_require] at hnew
  obtain ⟨rest, hrest, -, hstarts, hreplace⟩ := hnew
  obtain ⟨later, rfl⟩ := startsWith_eq hstarts
  exact exchanges_replaceAt (x := ("as!".toList, "as?".toList)) (by decide) hreplaced hsuggested
    hcolumn hrest (by decide) hreplace fun h => absurd h (by decide)

theorem exchanges_conditionalCastKotlin (h : (conditionalCastKotlin column w).Gives d) :
    d.Exchanges column := by
  rw [conditionalCastKotlin, gives_bind] at h
  obtain ⟨-, -, h⟩ := h
  rw [gives_bind] at h
  obtain ⟨offset, hcolumn, h⟩ := h
  rw [gives_of] at hcolumn
  obtain ⟨line, new, hnew, hreplaced, hsuggested⟩ := Draft.exists_of_ofLine_withAlternative h
  simp only [gives_bind, gives_of, gives_lift, gives_require, Bool.and_eq_true] at hnew
  obtain ⟨rest, hrest, -, ⟨hstarts, hblank⟩, hreplace⟩ := hnew
  obtain ⟨later, rfl⟩ := startsWith_eq hstarts
  exact exchanges_replaceAt (x := ("as".toList, "as?".toList)) (by decide) hreplaced hsuggested
    hcolumn hrest (by decide) hreplace fun _ => hblank

end Synthesis

/-- Every template for mixed types or missing values exchanges an operator. -/
theorem Template.exchanges_of_mem {t : Template} (ht : t ∈ all)
    (hkind : t.kind = .typeMismatch ∨ t.kind = .nullReference) {w : Window} {column : Option Nat}
    {d : Draft} (h : (t.build column w).Gives d) : d.Exchanges column := by
  simp only [all, List.mem_cons, List.not_mem_nil, or_false] at ht
  rcases ht with rfl | rfl | rfl | rfl | rfl | rfl | rfl | rfl | rfl | rfl | rfl | rfl | rfl | rfl
  · exact absurd hkind (by decide)
  · exact absurd hkind (by decide)
  · exact absurd hkind (by decide)
  · exact absurd hkind (by decide)
  · exact absurd hkind (by decide)
  · exact absurd hkind (by decide)
  · exact absurd hkind (by decide)
  · exact Synthesis.exchanges_strictEquality h
  · exact Synthesis.exchanges_conditionalCastSwift h
  · exact Synthesis.exchanges_conditionalCastKotlin h
  · exact Synthesis.exchanges_optionalChaining h
  · exact Synthesis.exchanges_kotlinSafeCall h
  · exact absurd hkind (by decide)
  · exact absurd hkind (by decide)

end Mend
