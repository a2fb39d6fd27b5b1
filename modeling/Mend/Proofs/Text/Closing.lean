import Mend.Proofs.Text.Good

/-!
# Openers and their closers

The closer of an opener is the first place where as many brackets of its kind are closed as are
open. What stands between the two closes none that it does not open (`nested`), and this is all that
`matchingClose` asks (`matchingClose_iff`): texts between them can be exchanged if they have the
same brackets (`nested_filter`), and what follows the closer does not matter.
-/

namespace Mend.Text

/-- How many brackets of a kind are open after a text, unless the last open one is closed in it. -/
def nested (kind : Delimiter) : Nat → List Char → Option Nat
  | depth, [] => some depth
  | depth, c :: s =>
    if c = kind.opener then nested kind (depth + 1) s
    else if c = kind.closer then if depth = 1 then none else nested kind (depth - 1) s
    else nested kind depth s

variable {kind : Delimiter}

theorem nested_append (t : List Char) : ∀ (depth : Nat) (s : List Char),
    nested kind depth (s ++ t) = (nested kind depth s).bind fun depth => nested kind depth t
  | _, [] => rfl
  | depth, c :: s => by
    rw [List.cons_append, nested, nested]
    split
    · exact nested_append t _ s
    split
    · split
      · rfl
      · exact nested_append t _ s
    · exact nested_append t _ s

/-- The character opens or closes a pair of the kind. -/
def Delimiter.isOf (kind : Delimiter) (c : Char) : Bool := c == kind.opener || c == kind.closer

/-- Only brackets of the kind count. -/
theorem nested_filter : ∀ (depth : Nat) (s : List Char),
    nested kind depth (s.filter kind.isOf) = nested kind depth s
  | _, [] => rfl
  | depth, c :: s => by
    by_cases hc : kind.isOf c = true
    · rw [List.filter_cons_of_pos hc, nested, nested, nested_filter _ s, nested_filter _ s,
        nested_filter _ s]
    · rw [List.filter_cons_of_neg hc, nested_filter depth s, nested]
      simp only [Delimiter.isOf, Bool.or_eq_true, beq_iff_eq, not_or] at hc
      rw [if_neg hc.1, if_neg hc.2]

/-- Texts with the same brackets nest alike. -/
theorem nested_congr {s t : List Char} (h : s.filter kind.isOf = t.filter kind.isOf) (depth : Nat) :
    nested kind depth s = nested kind depth t := by
  rw [← nested_filter, h, nested_filter]

/-- Blanks have no brackets. -/
theorem nested_append_blanks {blanks : List Char} (h : blanks.all isBlank = true) (s : List Char)
    (depth : Nat) : nested kind depth (s ++ blanks) = nested kind depth s := by
  have hnone : blanks.filter kind.isOf = [] := List.filter_eq_nil_iff.mpr fun c hc hof => by
    have hblank := List.all_eq_true.mp h c hc
    simp only [Delimiter.isOf, Bool.or_eq_true, beq_iff_eq] at hof
    rcases hof with rfl | rfl <;> cases kind <;> exact absurd hblank (by decide)
  exact nested_congr (by rw [List.filter_append, hnone, List.append_nil]) depth

theorem opener_ne_closer (kind : Delimiter) : kind.opener ≠ kind.closer := by
  cases kind <;> decide

/-- What is open after a text and what is closed in it make up what is open before it and what is
opened in it. -/
theorem count_of_nested {depth' : Nat} : ∀ {depth : Nat} {s : List Char}, 0 < depth →
    nested kind depth s = some depth' → depth + s.count kind.opener = depth' + s.count kind.closer
  | depth, [], _, h => by
    rw [nested, Option.some.injEq] at h
    rw [h, List.count_nil, List.count_nil]
  | depth, c :: s, hdepth, h => by
    have hkind := opener_ne_closer kind
    rw [nested] at h
    split at h
    · next hc =>
      have ih := count_of_nested (Nat.succ_pos depth) h
      rw [hc, List.count_cons_self, List.count_cons_of_ne hkind]
      omega
    split at h
    · next hc =>
      split at h
      · cases h
      · have ih := count_of_nested (by omega) h
        rw [hc, List.count_cons_self, List.count_cons_of_ne hkind.symm]
        omega
    · next hopener hcloser =>
      have ih := count_of_nested hdepth h
      rw [List.count_cons_of_ne hopener, List.count_cons_of_ne hcloser]
      exact ih

theorem size_opener (kind : Delimiter) : kind.opener.utf8Size = 1 := by
  cases kind <;> rfl

theorem closeFrom_of_nested (rest : List Char) : ∀ {depth pos : Nat} {mid : List Char},
    nested kind depth mid = some 1 →
      closeFrom kind depth pos (mid ++ kind.closer :: rest) = some (pos + width mid)
  | depth, pos, [], h => by
    rw [nested, Option.some.injEq] at h
    rw [List.nil_append, closeFrom, if_neg (opener_ne_closer kind).symm, if_pos rfl, if_pos h]
    rfl
  | depth, pos, c :: mid, h => by
    rw [nested] at h
    rw [List.cons_append, closeFrom, width, ← Nat.add_assoc]
    split at h
    · next hc => rw [if_pos hc, closeFrom_of_nested rest h]
    · next hc =>
      rw [if_neg hc]
      split at h
      · next hc' =>
        split at h
        · cases h
        · next hdepth => rw [if_pos hc', if_neg hdepth, closeFrom_of_nested rest h]
      · next hc' => rw [if_neg hc', closeFrom_of_nested rest h]

theorem nested_of_closeFrom {close : Nat} : ∀ {depth pos : Nat} {s : List Char},
    closeFrom kind depth pos s = some close → ∃ mid rest, s = mid ++ kind.closer :: rest ∧
      pos + width mid = close ∧ nested kind depth mid = some 1
  | _, _, [], h => by simp [closeFrom] at h
  | depth, pos, c :: s, h => by
    have hrest {depth'} (hnested : ∀ mid, nested kind depth (c :: mid) = nested kind depth' mid)
        (h : closeFrom kind depth' (pos + c.utf8Size) s = some close) :
        ∃ mid rest, c :: s = mid ++ kind.closer :: rest ∧ pos + width mid = close ∧
          nested kind depth mid = some 1 := by
      obtain ⟨mid, rest, rfl, rfl, hmid⟩ := nested_of_closeFrom h
      exact ⟨c :: mid, rest, rfl, by rw [width, Nat.add_assoc], (hnested mid).trans hmid⟩
    rw [closeFrom] at h
    split at h
    · next hc => exact hrest (fun mid => by rw [nested, if_pos hc]) h
    · next hc =>
      split at h
      · next hc' =>
        split at h
        · next hdepth =>
          exact ⟨[], s, by rw [hc']; rfl, by simpa [width] using h, congrArg some hdepth⟩
        · next hdepth =>
          exact hrest (fun mid => by rw [nested, if_neg hc, if_pos hc', if_neg hdepth]) h
      · next hc' => exact hrest (fun mid => by rw [nested, if_neg hc, if_neg hc']) h

/-- An opener and its closer stand around a text in which nothing is closed that is not opened. -/
theorem matchingClose_iff {s : List Char} {opening close : Nat} :
    matchingClose s opening = some close ↔ ∃ (kind : Delimiter) (front mid rest : List Char),
      s = front ++ kind.opener :: (mid ++ kind.closer :: rest) ∧ width front = opening ∧
        opening + 1 + width mid = close ∧ nested kind 1 mid = some 1 := by
  constructor
  · intro h
    unfold matchingClose at h
    split at h
    · next c rest hfrom =>
      obtain ⟨kind, hkind, hclose⟩ := Option.bind_eq_some_iff.mp h
      obtain ⟨rfl, hsize⟩ := size_of_ofOpener? hkind
      obtain ⟨front, rfl, rfl⟩ := exists_of_from? hfrom
      rw [closeFrom, if_pos rfl, hsize] at hclose
      obtain ⟨mid, rest, rfl, rfl, hmid⟩ := nested_of_closeFrom hclose
      exact ⟨kind, front, mid, rest, rfl, rfl, rfl, hmid⟩
    · cases h
  · rintro ⟨kind, front, mid, rest, rfl, rfl, rfl, hmid⟩
    have hkind : Delimiter.ofOpener? kind.opener = some kind := by cases kind <;> rfl
    rw [matchingClose, from?_eq, splitAt?_width, Option.map_some]
    show (Delimiter.ofOpener? kind.opener).bind _ = _
    rw [hkind, Option.bind_some, closeFrom, if_pos rfl, size_opener, closeFrom_of_nested rest hmid]

/-- What stands between the two. -/
theorem cut_matched (kind : Delimiter) (front mid rest : List Char) :
    cut (width front + 1) (width front + 1 + width mid)
      (front ++ kind.opener :: (mid ++ kind.closer :: rest)) = mid := by
  have hcut := cut_append (front ++ [kind.opener]) mid (kind.closer :: rest)
  rw [width_append, width, size_opener, width] at hcut
  simpa using hcut

/-- What follows the closer does not matter. -/
theorem matchingClose_prefix {s t : List Char} {opening close : Nat}
    (h : matchingClose (s ++ t) opening = some close) (hclose : close < width s) :
    matchingClose s opening = some close ∧
      cut (opening + 1) close s = cut (opening + 1) close (s ++ t) := by
  obtain ⟨kind, front, mid, rest, hs, rfl, rfl, hmid⟩ := matchingClose_iff.mp h
  have hsplit : (front ++ kind.opener :: mid ++ [kind.closer]) ++ rest = s ++ t := by
    rw [hs]
    simp
  have hwidth : width (front ++ kind.opener :: mid ++ [kind.closer]) ≤ width s := by
    have hsize : kind.closer.utf8Size = 1 := by cases kind <;> rfl
    rw [width_append, width_append, width, width, width, hsize, size_opener]
    omega
  obtain ⟨w, rfl, -⟩ := exists_append_of_width hsplit hwidth
  refine ⟨matchingClose_iff.mpr ⟨kind, front, mid, w, by simp, rfl, rfl, hmid⟩, ?_⟩
  have hw : front ++ kind.opener :: mid ++ [kind.closer] ++ w =
      front ++ kind.opener :: (mid ++ kind.closer :: w) := by simp
  rw [hs, hw, cut_matched, cut_matched]

end Mend.Text
