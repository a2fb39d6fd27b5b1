import Mend.Proofs.Pattern.Places
import Mend.Proofs.Synthesis.Insertions
import Mend.Synthesis.Capture

/-!
# Uses of the owner that are chained

The template for closures puts a question mark after the word in every use of the owner. The text
that comes out of it (`Chained`) has a chained use for each use of the first one and no other use
(`Chained.countFrom_used`, `Chained.countFrom_chained`), provided that the word is on its own only
where a member is used: a use that is chained already would count twice.
-/

namespace Mend.Synthesis

open Text Pattern

/-- The word for the owner of a closure. -/
def owner : List Char := ['s', 'e', 'l', 'f']

/-- A use of the owner, as its text starts. -/
def used : List Char := ['s', 'e', 'l', 'f', '.']

/-- A use of the owner that is chained. -/
def chained : List Char := ['s', 'e', 'l', 'f', '?', '.']

/-- The second text is the first with a question mark in each use of the owner. A text is read after
a word character or not. -/
inductive Chained : Bool → List Char → List Char → Prop
  | nil (word : Bool) : Chained word [] []
  /-- Nothing but a use has the word for the owner on its own. -/
  | keep {word : Bool} {c : Char} {s t : List Char} : leadsAlone owner word (c :: s) = false →
      Chained (isWord c) s t → Chained word (c :: s) (c :: t)
  | use {s t : List Char} : Chained false s t → Chained false (used ++ s) (chained ++ t)

theorem leadsAlone_of_used {word : Bool} {s : List Char} (h : leads used word s = true) :
    leadsAlone owner word s = true :=
  leadsAlone_of_leads (u := []) (c := '.') (by decide) h

theorem leadsAlone_of_chained {word : Bool} {s : List Char} (h : leads chained word s = true) :
    leadsAlone owner word s = true :=
  leadsAlone_of_leads (u := ['.']) (c := '?') (by decide) h

/-- A text that has the first letter of a word only at its start, and no word character at its end,
has the word once or not at all. -/
theorem countFrom_once {P : Bool → List Char → Bool}
    (hP : ∀ {before d s}, P before (d :: s) = true → d = 's') {u : List Char} (hu : 's' ∉ u)
    (hlast : wordAfter true u = false) (s : List Char) : countFrom P false ('s' :: u ++ s) =
      (if P false ('s' :: u ++ s) then 1 else 0) + countFrom P false s := by
  rw [List.cons_append, countFrom_cons, countFrom_append_of_not_mem hP s _ hu,
    show isWord 's' = true by decide, hlast]

theorem countFrom_used_append (s : List Char) :
    countFrom (leads used) false (used ++ s) = 1 + countFrom (leads used) false s := by
  have h := countFrom_once (P := leads used) eq_of_leads (u := ['e', 'l', 'f', '.'])
    (by decide) (by decide) s
  rwa [if_pos (by simp [leads, used])] at h

theorem countFrom_alone_append (s : List Char) :
    countFrom (leadsAlone owner) false (used ++ s) = 1 + countFrom (leadsAlone owner) false s := by
  have h := countFrom_once (P := leadsAlone owner) eq_of_leadsAlone (u := ['e', 'l', 'f', '.'])
    (by decide) (by decide) s
  rwa [if_pos (leadsAlone_of_used (by simp [leads, used]))] at h

namespace Chained

variable {word : Bool} {s t : List Char}

theorem head?_eq (h : Chained word s t) : t.head? = s.head? := by
  cases h <;> rfl

/-- The other characters are the same. -/
theorem filter_eq (h : Chained word s t) {p : Char → Bool} (hp : p '?' = false) :
    t.filter p = s.filter p := by
  induction h with
  | nil => rfl
  | keep _ _ ih => rw [List.filter_cons, List.filter_cons, ih]
  | use _ ih =>
    have hmark : chained.filter p = used.filter p := by
      simp only [chained, used, List.filter_cons, hp, Bool.false_eq_true, if_false]
    rw [List.filter_append, List.filter_append, ih, hmark]

/-- Inside a word both texts are the same. -/
theorem of_word : ∀ {u : List Char} {s t : List Char}, Chained true s (u ++ t) →
    u.all isWord = true → ∃ s', s = u ++ s' ∧ Chained true s' t
  | [], s, _, h, _ => ⟨s, rfl, h⟩
  | c :: u, s, t, h, hu => by
    rw [List.all_cons, Bool.and_eq_true] at hu
    cases h with
    | keep _ h =>
      rw [hu.1] at h
      obtain ⟨s', rfl, h'⟩ := of_word h hu.2
      exact ⟨s', rfl, h'⟩

/-- The word for the owner is not on its own in the second text where it is not in the first. -/
theorem leadsAlone_keep {c : Char} (hkeep : leadsAlone owner word (c :: s) = false)
    (h : Chained (isWord c) s t) : leadsAlone owner word (c :: t) = false := by
  by_contra halone
  rw [Bool.not_eq_false, leadsAlone, leads, Bool.and_eq_true, Bool.and_eq_true,
    List.isPrefixOf_iff_prefix] at halone
  obtain ⟨⟨hword, u, hu⟩, hnext⟩ := halone
  obtain ⟨rfl, rfl⟩ : 's' = c ∧ ['e', 'l', 'f'] ++ u = t := List.cons.inj hu
  obtain ⟨s', rfl, h'⟩ := of_word h (by decide)
  have halone : leadsAlone owner word (owner ++ s') = true := by
    rw [leadsAlone, leads, hword, List.isPrefixOf_iff_prefix.mpr (List.prefix_append owner s'),
      List.drop_left, ← h'.head?_eq]
    exact hnext
  rw [show leadsAlone owner word ('s' :: (['e', 'l', 'f'] ++ s')) = true from halone] at hkeep
  cases hkeep

/-- Where the second text starts with a chained use, the first starts with a use, and the other way
round. -/
theorem leads_chained (h : Chained word s t) : leads chained word t = leads used word s := by
  cases h with
  | nil => rfl
  | @keep _ c s t hkeep h =>
    have hs : leads used word (c :: s) = false := Bool.eq_false_iff.mpr fun hs =>
      absurd (leadsAlone_of_used hs) (by rw [hkeep]; decide)
    have ht : leads chained word (c :: t) = false := Bool.eq_false_iff.mpr fun ht =>
      absurd (leadsAlone_of_chained ht) (by rw [leadsAlone_keep hkeep h]; decide)
    rw [hs, ht]
  | use => simp [leads, chained, used]

/-- The second text has a chained use for each use in the first. -/
theorem countFrom_chained (h : Chained word s t) :
    countFrom (leads chained) word t = countFrom (leads used) word s := by
  induction h with
  | nil => rfl
  | keep hkeep h ih => rw [countFrom_cons, countFrom_cons, ih, leads_chained (keep hkeep h)]
  | @use s t _ ih =>
    have ht := countFrom_once (P := leads chained) eq_of_leads (u := ['e', 'l', 'f', '?', '.'])
      (by decide) (by decide) t
    rw [if_pos (by simp [leads, chained])] at ht
    rw [countFrom_used_append, ← ih]
    exact ht

/-- The second text has no other use. -/
theorem countFrom_used (h : Chained word s t) : countFrom (leads used) word t = 0 := by
  induction h with
  | nil => rfl
  | @keep word c s t hkeep h ih =>
    have ht : leads used word (c :: t) = false := Bool.eq_false_iff.mpr fun ht =>
      absurd (leadsAlone_of_used ht) (by rw [leadsAlone_keep hkeep h]; decide)
    rw [countFrom_cons, ih, ht]
    rfl
  | @use s t _ ih =>
    have ht := countFrom_once (P := leads used) eq_of_leads (u := ['e', 'l', 'f', '?', '.'])
      (by decide) (by decide) t
    rw [if_neg (by simp [leads, used])] at ht
    exact ht.trans ((congrArg _ ih).trans (Nat.zero_add 0))

end Chained

/-! ## Putting the question marks in -/

/-- The question mark in a use of the owner that starts at an offset. -/
def chainMark (place : Nat) : Insertion := ⟨place + owner.length, ['?']⟩

theorem placesFrom_used (pos : Nat) (rest : List Char) :
    placesFrom (leads used) false pos (used ++ rest) =
      pos :: placesFrom (leads used) false (pos + width used) rest := by
  have hplaces := placesFrom_append_of_not_mem (P := leads used) eq_of_leads rest
    (u := ['e', 'l', 'f', '.']) (isWord 's') (pos + 's'.utf8Size) (by decide)
  rw [used, List.cons_append, ← used, placesFrom, if_pos (by simp [leads, used]), hplaces,
    show wordAfter (isWord 's') ['e', 'l', 'f', '.'] = false by decide, Nat.add_assoc]
  rfl

/-- The question mark comes after the word, and the rest after the dot. -/
theorem insertFrom_used {front rest r : List Char} {is : List Insertion}
    (h : insertFrom (front ++ used ++ rest) (width (front ++ used)) is = .ok r) :
    insertFrom (front ++ used ++ rest) (width front) (chainMark (width front) :: is) =
      .ok (chained ++ r) := by
  have hdot : insertFrom (front ++ used ++ rest) (width front + owner.length) is = .ok ('.' :: r) :=
    insertFrom_of_between (between_eq (front ++ owner) ['.'] rest (by simp [owner, used])
      (by rw [width_append]; rfl) (by rw [width_append]; rfl)) h
  have hcons := insertFrom_cons (i := chainMark (width front))
    (between_eq front owner ('.' :: rest) (by simp [owner, used]) rfl rfl) hdot
  rw [hcons]
  rfl

/-- If the word for the owner is on its own only where it is used, each use is chained. -/
theorem exists_chained (back : List Char) : ∀ (front s : List Char) (word : Bool),
    countFrom (leadsAlone owner) word s = countFrom (leads used) word s →
    ∃ t, Chained word s t ∧ insertFrom (front ++ s ++ back) (width front)
      ((placesFrom (leads used) word (width front) s).map chainMark) = .ok (t ++ back)
  | front, [], word, _ => by
    refine ⟨[], .nil word, ?_⟩
    rw [placesFrom, List.map_nil, insertFrom, List.append_nil, onward_eq_of rfl rfl, List.nil_append]
  | front, c :: s, word, h => by
    by_cases huse : leads used word (c :: s) = true
    · obtain ⟨hword, hprefix⟩ := Bool.and_eq_true_iff.mp huse
      obtain ⟨rest, hrest⟩ := List.isPrefixOf_iff_prefix.mp hprefix
      have hlength : rest.length < (c :: s).length := by
        rw [← hrest, List.length_append]
        exact Nat.lt_add_of_pos_left (by decide)
      obtain rfl : word = false := by simpa using hword
      rw [← hrest] at h ⊢
      rw [countFrom_alone_append, countFrom_used_append] at h
      obtain ⟨t, ht, hinsert⟩ := exists_chained back (front ++ used) rest false
        (Nat.add_left_cancel h)
      refine ⟨chained ++ t, .use ht, ?_⟩
      have hsplit : front ++ (used ++ rest) ++ back = front ++ used ++ (rest ++ back) := by simp
      rw [List.append_assoc (front ++ used)] at hinsert
      rw [placesFrom_used, List.map_cons, ← width_append, hsplit, insertFrom_used hinsert,
        List.append_assoc]
    · rw [countFrom_cons, countFrom_cons, if_neg huse] at h
      have hle := countFrom_le (P := leads used) (Q := leadsAlone owner)
        (fun _ _ => leadsAlone_of_used) (isWord c) s
      have hkeep : leadsAlone owner word (c :: s) = false := by
        by_contra halone
        rw [Bool.not_eq_false] at halone
        rw [if_pos halone] at h
        omega
      rw [hkeep, if_neg (by decide)] at h
      obtain ⟨t, ht, hinsert⟩ := exists_chained back (front ++ [c]) s (isWord c) (by omega)
      refine ⟨c :: t, .keep hkeep ht, ?_⟩
      rw [placesFrom, if_neg huse]
      have hwidth : width (front ++ [c]) = width front + c.utf8Size := by
        rw [width_append]
        rfl
      have hsplit : front ++ [c] ++ s ++ back = front ++ c :: s ++ back := by simp
      have hread : between (width front) (width front + c.utf8Size) (front ++ c :: s ++ back) =
          .ok [c] := between_eq front [c] (s ++ back) (by simp) rfl rfl
      rw [hwidth, hsplit] at hinsert
      have hmarks := insertFrom_of_between hread hinsert
      exact hmarks
termination_by _ s => s.length
decreasing_by
  · exact hlength
  · exact Nat.lt_succ_self s.length

end Mend.Synthesis
