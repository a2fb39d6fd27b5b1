import Mend.Proofs.Result
import Mend.Proofs.Text.Visible
import Mend.Synthesis.Draft

/-!
# Texts put in at offsets

To put texts in at offsets divides a text at these offsets (`insertFrom_cons`,
`insertFrom_of_between`). Where each of them comes right after a character that the mask shows, and
has nothing that the lexer minds, it makes no difference whether the texts are put into a text before
it is masked or after (`mask_insertFrom`).
-/

namespace Mend

open Text Mask

namespace Text

/-- What comes after an offset, and what comes before it. -/
theorem exists_of_onward {lo : Nat} {s back : List Char} (h : onward lo s = .ok back) :
    ∃ front, s = front ++ back ∧ width front = lo := by
  unfold onward at h
  split at h
  · next front back' hlo =>
    obtain rfl := Except.ok.inj h
    exact ⟨front, (splitAt?_append hlo).symm, width_of_splitAt? hlo⟩
  · cases h

/-- What stands between two offsets, and what stands around it. -/
theorem exists_of_between {lo hi : Nat} {s part : List Char} (h : between lo hi s = .ok part) :
    ∃ front back, s = front ++ part ++ back ∧ width front = lo ∧ width front + width part = hi := by
  unfold between at h
  split at h
  · cases h
  · next hle =>
    obtain ⟨back, hback, h⟩ := bind_eq_ok.mp h
    split at h
    · next part' later hsplit =>
      obtain rfl := Except.ok.inj h
      obtain ⟨front, rfl, rfl⟩ := exists_of_onward hback
      refine ⟨front, later, ?_, rfl, ?_⟩
      · rw [← splitAt?_append hsplit, List.append_assoc]
      · rw [width_of_splitAt? hsplit]
        omega
    · cases h

theorem between_eq {lo hi : Nat} {s : List Char} (front part back : List Char)
    (hs : s = front ++ part ++ back) (hlo : width front = lo) (hhi : lo + width part = hi) : between lo hi s = .ok part := by
  subst hs hlo hhi
  rw [between_eq_cut ⟨front, part ++ back, by rw [List.append_assoc], rfl⟩
    ⟨front ++ part, back, rfl, width_append _ _⟩ (Nat.le_add_right _ _), cut_append]

/-- Parts that follow each other make up one part. -/
theorem between_append {lo mid hi : Nat} {s part part' : List Char}
    (h : between lo mid s = .ok part) (h' : between mid hi s = .ok part') :
    between lo hi s = .ok (part ++ part') := by
  obtain ⟨front, back, rfl, rfl, rfl⟩ := exists_of_between h
  obtain ⟨front', back', hs, hwidth, rfl⟩ := exists_of_between h'
  rw [← width_append] at hwidth
  rw [List.append_assoc front'] at hs
  obtain ⟨rfl, rfl⟩ := append_inj_of_width hs hwidth.symm
  exact between_eq front _ back' (by simp only [List.append_assoc]) rfl
    (by rw [width_append, width_append, Nat.add_assoc])

theorem onward_eq_of {lo : Nat} {s front back : List Char} (hs : s = front ++ back)
    (hlo : width front = lo) : onward lo s = .ok back := by
  rw [hs, ← hlo, onward, splitAt?_width]

end Text

namespace Synthesis

/-! ## Dividing a text -/

variable {s kept r : List Char} {cursor : Nat} {is : List Insertion}

/-- The first text comes after what is kept up to it. -/
theorem insertFrom_cons {i : Insertion} (hkept : between cursor i.offset s = .ok kept)
    (h : insertFrom s i.offset is = .ok r) :
    insertFrom s cursor (i :: is) = .ok (kept ++ i.text ++ r) := by
  rw [insertFrom, hkept]
  show (insertFrom s i.offset is).bind _ = _
  rw [h]
  rfl

theorem exists_of_insertFrom {i : Insertion} (h : insertFrom s cursor (i :: is) = .ok r) :
    ∃ kept rest, between cursor i.offset s = .ok kept ∧ insertFrom s i.offset is = .ok rest ∧
      r = kept ++ i.text ++ rest := by
  simp only [insertFrom, bind_eq_ok] at h
  obtain ⟨kept, hkept, rest, hrest, h⟩ := h
  exact ⟨kept, rest, hkept, hrest, (Except.ok.inj h).symm⟩

/-- Where more is kept before the first text, it comes before all. -/
theorem insertFrom_of_between {cursor' : Nat} (hkept : between cursor cursor' s = .ok kept)
    (h : insertFrom s cursor' is = .ok r) : insertFrom s cursor is = .ok (kept ++ r) := by
  cases is with
  | nil => exact onward_of_between hkept h
  | cons i is =>
    obtain ⟨part, rest, hpart, hrest, rfl⟩ := exists_of_insertFrom h
    rw [insertFrom_cons (between_append hkept hpart) hrest]
    simp only [List.append_assoc]

/-- What comes after the places where texts are put in stays as it is. -/
theorem exists_of_insertFrom_append {s t : List Char} : ∀ {cursor : Nat} {is : List Insertion}
    {r : List Char}, insertFrom (s ++ t) cursor is = .ok r → cursor ≤ width s →
      (∀ i ∈ is, i.offset ≤ width s) → ∃ r', r = r' ++ t
  | cursor, [], r, h, hcursor, _ => by
    obtain ⟨front, hsplit, rfl⟩ := exists_of_onward h
    obtain ⟨r', -, rfl⟩ := exists_append_of_width hsplit.symm hcursor
    exact ⟨r', rfl⟩
  | cursor, i :: is, r, h, _, his => by
    obtain ⟨kept, rest, -, hrest, rfl⟩ := exists_of_insertFrom h
    obtain ⟨r', rfl⟩ := exists_of_insertFrom_append hrest (his i List.mem_cons_self)
      fun j hj => his j (List.mem_cons_of_mem i hj)
    exact ⟨kept ++ i.text ++ r', by simp only [List.append_assoc]⟩

/-! ## Masks -/

variable {language : Language}

/-- The mask shows a quiet character that ends at the offset. -/
def ShownBefore (language : Language) (s : List Char) (offset : Nat) : Prop :=
  ∃ c m n, mask language s = m ++ c :: n ∧ isQuiet c = true ∧ c ≠ ' ' ∧
    width m + c.utf8Size = offset

/-- The text from a place on that is read afresh, up to a character that is shown and from there on. -/
theorem exists_of_shownBefore {front kept later m : List Char}
    (hmask : mask language (front ++ kept ++ later) = m ++ mask language (kept ++ later))
    (hm : width m = width front) (hne : kept ≠ [])
    (h : ShownBefore language (front ++ kept ++ later) (width (front ++ kept))) :
    ∃ k c, kept = k ++ [c] ∧ isQuiet c = true ∧ InCode language k ∧
      mask language (kept ++ later) = mask language k ++ [c] ++ mask language later := by
  obtain ⟨c, before, n, hshown, hc, hspace, hoffset⟩ := h
  obtain ⟨k, d, rfl⟩ : ∃ k d, kept = k ++ [d] := ⟨_, _, (List.dropLast_append_getLast hne).symm⟩
  obtain ⟨p, t, hsource, hp⟩ := exists_source hspace hshown
  have hparts : front ++ (k ++ [d]) ++ later = p ++ [c] ++ t := by rw [hsource, ← List.append_cons]
  have hends : width (front ++ (k ++ [d])) = width (p ++ [c]) := by
    rw [← hoffset, width_append p, hp]
    rfl
  obtain ⟨hbefore, rfl⟩ := append_inj_of_width hparts hends
  rw [← List.append_assoc] at hbefore
  obtain ⟨rfl, hlast⟩ := List.append_inj' hbefore rfl
  obtain rfl := (List.cons.inj hlast).1
  obtain ⟨m', rfl, hrest⟩ := exists_append_of_width (hmask.symm.trans hshown)
    (by rw [hm, ← hp, width_append]; exact Nat.le_add_right _ _)
  have hk : width m' = width k := by
    rw [width_append, width_append] at hp
    omega
  rw [← List.append_cons] at hrest
  obtain ⟨hcode, rfl, rfl⟩ := inCode_of_visible hc hspace hrest hk
  exact ⟨k, d, rfl, hc, hcode, by rw [← List.append_cons, hrest, ← List.append_cons]⟩

/-- A quiet text right after a quiet character of code is shown, and what follows is read afresh. -/
theorem mask_inserted {k u : List Char} {c : Char} (hcode : InCode language k)
    (hc : isQuiet c = true) (hu : u.all isQuiet = true) (hne : u ≠ []) (rest : List Char) :
    mask language (k ++ [c] ++ u ++ rest) = mask language k ++ [c] ++ u ++ mask language rest := by
  have hquiet : (c :: u).all isQuiet = true := by rw [List.all_cons, hc, hu]; rfl
  have hlength := List.length_pos_iff.mpr hne
  have hahead : Ahead (c :: u ++ rest) :=
    ahead_quiet hquiet rest (Or.inl (by rw [List.length_cons]; omega)) (List.cons_ne_nil c u)
  have hsplit : k ++ [c] ++ u ++ rest = k ++ (c :: u ++ rest) := by simp
  rw [hsplit, hcode.mask_append hahead, mask_quiet hquiet]
  simp

/-- A quiet text is put in right after a character that the mask shows. -/
structure Seen (language : Language) (s : List Char) (i : Insertion) : Prop where
  quiet : i.text.all isQuiet = true
  nonempty : i.text ≠ []
  shown : ShownBefore language s i.offset

/-- Texts are put into the masked text as into the text, from a place on that is read afresh. -/
theorem mask_insertFrom_of_fresh {s : List Char} : ∀ {is : List Insertion}
    (front back : List Char) {m r : List Char}, s = front ++ back → mask language s = m ++ mask language back →
    width m = width front → (∀ i ∈ is, Seen language s i) → insertFrom s (width front) is = .ok r →
    insertFrom (mask language s) (width front) is = .ok (mask language r)
  | [], front, back, m, r, hs, hmask, hm, _, h => by
    rw [insertFrom, onward_eq_of hs rfl] at h
    obtain rfl := Except.ok.inj h
    exact onward_eq_of hmask hm
  | i :: is, front, back, m, r, hs, hmask, hm, his, h => by
    obtain ⟨kept, rest, hkept, hrest, rfl⟩ := exists_of_insertFrom h
    obtain ⟨hquiet, hne, hshown⟩ := his i List.mem_cons_self
    have hlater : ∀ j ∈ is, Seen language s j := fun j hj => his j (List.mem_cons_of_mem i hj)
    obtain ⟨front', later, hs', hwidth, hplace⟩ := exists_of_between hkept
    have hparts := hs.symm.trans hs'
    rw [List.append_assoc] at hparts
    obtain ⟨rfl, rfl⟩ := append_inj_of_width hparts hwidth.symm
    rw [← width_append] at hplace
    rw [← hplace] at hrest hshown
    by_cases hnil : kept = []
    · -- What is put in comes right at the start, where nothing is read before it.
      subst hnil
      rw [List.append_nil] at hrest hplace
      have ih := mask_insertFrom_of_fresh _ _ hs hmask hm hlater hrest
      rw [List.nil_append, mask_quiet hquiet]
      exact insertFrom_cons (between_eq m [] (mask language later) (by simpa using hmask) hm hplace)
        (hplace ▸ ih)
    · -- Before the place stands the character that the mask shows, and the lexer is in code there.
      subst hs'
      obtain ⟨k, c, rfl, hc, hcode, hback⟩ := exists_of_shownBefore hmask hm hnil hshown
      have hk : width (mask language k ++ [c]) = width (k ++ [c]) := by
        rw [width_append, width_append, (aligned_mask language k).1]
      have hmask' : mask language (front ++ (k ++ [c]) ++ later) =
          m ++ (mask language k ++ [c]) ++ mask language later := by
        rw [hmask, hback, ← List.append_assoc m]
      have ih := mask_insertFrom_of_fresh (front ++ (k ++ [c])) later rfl hmask'
        (by rw [width_append m, width_append front, hm, hk]) hlater hrest
      rw [mask_inserted hcode hc hquiet hne]
      exact insertFrom_cons (between_eq _ _ _ hmask' hm (by rw [hk, ← hplace, width_append front]))
        (hplace ▸ ih)

/-- Texts are put into the masked text as into the text. -/
theorem mask_insertFrom {s r : List Char} {is : List Insertion}
    (his : ∀ i ∈ is, Seen language s i) (h : insertFrom s 0 is = .ok r) :
    insertFrom (mask language s) 0 is = .ok (mask language r) :=
  mask_insertFrom_of_fresh [] s (m := []) rfl rfl rfl his h

end Synthesis

end Mend
