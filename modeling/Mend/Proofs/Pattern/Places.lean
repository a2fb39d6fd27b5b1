import Mend.Proofs.Pattern.Running
import Mathlib.Data.List.Sort

/-!
# Where words stand

A pattern for a word reads at a place exactly if no word character comes before it and the word
follows. Of such a condition on a place (`Pattern.Marks`) the places in a text can be listed from
left to right, one character after another (`placesFrom`), and a search for all matches finds just
these (`Marks.starts_findAll`). So matches can be counted by the recursion on the text.
-/

namespace Mend

open Text

/-! ## Places that satisfy a condition -/

namespace Text

/-- Whether a word character is the last before a place, when some text has been read. -/
def wordAfter : Bool → List Char → Bool
  | word, [] => word
  | _, c :: s => wordAfter (isWord c) s

@[simp] theorem wordAfter_nil (word : Bool) : wordAfter word [] = word := rfl

@[simp] theorem wordAfter_cons (word : Bool) (c : Char) (s : List Char) :
    wordAfter word (c :: s) = wordAfter (isWord c) s := rfl

theorem wordAfter_append (t : List Char) : ∀ (word : Bool) (s : List Char),
    wordAfter word (s ++ t) = wordAfter (wordAfter word s) t
  | _, [] => rfl
  | _, c :: s => wordAfter_append t (isWord c) s

theorem getLast?_any_isWord : ∀ s : List Char, s.getLast?.any isWord = wordAfter false s
  | [] => rfl
  | [_] => rfl
  | c :: d :: s => by
    rw [List.getLast?_cons_cons, getLast?_any_isWord (d :: s)]
    rfl

theorem wordAfter_of_all {word : Bool} : ∀ {x : List Char}, x ≠ [] → x.all isWord = true →
    wordAfter word x = true
  | [c], _, h => by simpa using h
  | c :: d :: x, _, h => by
    rw [List.all_cons, Bool.and_eq_true] at h
    show wordAfter (isWord c) (d :: x) = true
    exact wordAfter_of_all (List.cons_ne_nil d x) h.2

/-- The offsets of the places of a text that satisfy a condition. The text starts at `pos`, after a
word character or not. -/
def placesFrom (P : Bool → List Char → Bool) : Bool → Nat → List Char → List Nat
  | _, _, [] => []
  | word, pos, c :: s =>
    if P word (c :: s) then pos :: placesFrom P (isWord c) (pos + c.utf8Size) s
    else placesFrom P (isWord c) (pos + c.utf8Size) s

variable {P : Bool → List Char → Bool}

theorem mem_placesFrom {x : Nat} : ∀ {word : Bool} {pos : Nat} {s : List Char},
    x ∈ placesFrom P word pos s ↔ ∃ front c back, s = front ++ c :: back ∧
      pos + width front = x ∧ P (wordAfter word front) (c :: back) = true
  | _, _, [] => by simp [placesFrom]
  | word, pos, c :: s => by
    have hlater : x ∈ placesFrom P (isWord c) (pos + c.utf8Size) s ↔ ∃ front d back,
        c :: s = c :: front ++ d :: back ∧ pos + width (c :: front) = x ∧
          P (wordAfter word (c :: front)) (d :: back) = true := by
      rw [mem_placesFrom]
      simp only [List.cons_append, List.cons.injEq, true_and, width, wordAfter_cons, Nat.add_assoc]
    have hsplit : x ∈ placesFrom P word pos (c :: s) ↔ (x = pos ∧ P word (c :: s) = true) ∨
        x ∈ placesFrom P (isWord c) (pos + c.utf8Size) s := by
      rw [placesFrom]
      split
      · next hP => rw [List.mem_cons]; simp [hP]
      · next hP => simp [hP]
    rw [hsplit, hlater]
    constructor
    · rintro (⟨rfl, hP⟩ | ⟨front, d, back, hs, hx, hP⟩)
      · exact ⟨[], c, s, rfl, rfl, hP⟩
      · exact ⟨c :: front, d, back, hs, hx, hP⟩
    · rintro ⟨front, d, back, hs, hx, hP⟩
      cases front with
      | nil =>
        obtain ⟨rfl, rfl⟩ := List.cons.inj hs
        exact Or.inl ⟨hx.symm, hP⟩
      | cons e front =>
        obtain ⟨rfl, -⟩ := List.cons.inj hs
        exact Or.inr ⟨front, d, back, hs, hx, hP⟩

theorem le_of_mem_placesFrom {x pos : Nat} {word : Bool} {s : List Char}
    (h : x ∈ placesFrom P word pos s) : pos ≤ x := by
  obtain ⟨front, -, -, -, rfl, -⟩ := mem_placesFrom.mp h
  exact Nat.le_add_right _ _

theorem pairwise_placesFrom : ∀ (word : Bool) (pos : Nat) (s : List Char),
    (placesFrom P word pos s).Pairwise (· < ·)
  | _, _, [] => List.Pairwise.nil
  | word, pos, c :: s => by
    rw [placesFrom]
    split
    · refine List.pairwise_cons.mpr ⟨fun x hx => ?_, pairwise_placesFrom _ _ s⟩
      have := le_of_mem_placesFrom hx
      have := c.utf8Size_pos
      omega
    · exact pairwise_placesFrom _ _ s

/-- The places of a text that starts elsewhere. -/
theorem placesFrom_add (k : Nat) : ∀ (word : Bool) (pos : Nat) (s : List Char),
    placesFrom P word (k + pos) s = (placesFrom P word pos s).map (k + ·)
  | _, _, [] => rfl
  | word, pos, c :: s => by
    rw [placesFrom, placesFrom, Nat.add_assoc, placesFrom_add k _ _ s]
    split <;> rfl

/-- How many places of a text satisfy a condition. -/
def countFrom (P : Bool → List Char → Bool) (word : Bool) (s : List Char) : Nat :=
  (placesFrom P word 0 s).length

theorem length_placesFrom (word : Bool) (pos : Nat) (s : List Char) :
    (placesFrom P word pos s).length = countFrom P word s := by
  rw [countFrom, ← Nat.add_zero pos, placesFrom_add, List.length_map]

theorem countFrom_cons (word : Bool) (c : Char) (s : List Char) :
    countFrom P word (c :: s) =
      (if P word (c :: s) then 1 else 0) + countFrom P (isWord c) s := by
  rw [countFrom, placesFrom]
  split
  · rw [List.length_cons, length_placesFrom, Nat.add_comm]
  · rw [length_placesFrom, Nat.zero_add]

end Text

namespace Pattern

/-! ## Patterns that read where a condition holds -/

/-- The pattern reads `n` characters wherever the condition holds, and nothing elsewhere. Two such
places are at least `n` characters apart. -/
structure Marks (p : Pattern) (P : Bool → List Char → Bool) (n : Nat) : Prop where
  run_eq : ∀ front back : List Char, (p.on (.of (front ++ back)) .done).run front.length =
    if P (wordAfter false front) back then some ⟨front.length + n, []⟩ else none
  apart : ∀ {word word' : Bool} {mid back : List Char}, P word (mid ++ back) = true →
    P word' back = true → mid ≠ [] → n ≤ mid.length
  pos : 0 < n
  nonempty : ∀ word, P word [] = false

namespace Marks

variable {p : Pattern} {P : Bool → List Char → Bool} {n : Nat} {text : List Char}

theorem run_place (h : Marks p P n) {i : Nat} (hi : i ≤ text.length) :
    (p.on (.of text) .done).run i =
      if P (wordAfter false (text.take i)) (text.drop i) then some ⟨i + n, []⟩ else none := by
  have hrun := h.run_eq (text.take i) (text.drop i)
  rwa [List.take_append_drop, List.length_take, Nat.min_eq_left hi] at hrun

theorem mem_starts (h : Marks p P n) (hp : p.solid = true) {x : Nat} :
    x ∈ (p.findAll text).map Match.start ↔ x ∈ placesFrom P false 0 text := by
  have hstrict : (p.on (.of text) .done).Strict := by
    intro i e hrun
    obtain ⟨j, ms, e', hreads, hdone, rfl⟩ := reads_of_on hrun
    obtain rfl := Option.some.inj hdone
    exact hreads.lt hp
  simp only [findAll, List.map_map, List.mem_map, Subject.size_of]
  rw [mem_placesFrom]
  constructor
  · rintro ⟨⟨i, e⟩, hfound, rfl⟩
    obtain ⟨hrun, -, hi⟩ := Matcher.mem_all (forward_on _ p) hfound
    rw [h.run_place hi, Option.ite_none_right_eq_some] at hrun
    have hsplit := List.take_append_drop i text
    cases hback : text.drop i with
    | nil =>
      rw [hback, h.nonempty] at hrun
      cases hrun.1
    | cons c back =>
      rw [hback] at hrun hsplit
      refine ⟨text.take i, c, back, hsplit.symm, ?_, hrun.1⟩
      rw [Nat.zero_add]
      exact (Subject.offset_of hi).symm
  · rintro ⟨front, c, back, rfl, rfl, hP⟩
    have hrun := h.run_eq front (c :: back)
    rw [if_pos hP] at hrun
    have hle : front.length ≤ (front ++ c :: back).length := by simp
    refine ⟨(front.length, ⟨front.length + n, []⟩), Matcher.mem_all_of_run hstrict hrun hle ?_
      (by omega) (Nat.zero_le _), ?_⟩
    · intro j hj e' hrun'
      rw [h.run_place (by omega), Option.ite_none_right_eq_some] at hrun'
      obtain ⟨hP', hstop⟩ := hrun'
      obtain rfl := Option.some.inj hstop
      rw [List.drop_append_of_le_length (by omega)] at hP'
      have hapart := h.apart hP' hP (List.ne_nil_of_length_pos (by rw [List.length_drop]; omega))
      rw [List.length_drop] at hapart
      show j + n ≤ front.length
      omega
    · show (Subject.of (front ++ c :: back)).offset front.length = _
      rw [Subject.offset_of hle, List.take_left, Nat.zero_add]

/-- A search finds the places where the condition holds. -/
theorem starts_findAll (h : Marks p P n) (hp : p.solid = true) (text : List Char) :
    (p.findAll text).map Match.start = placesFrom P false 0 text :=
  List.Pairwise.eq_of_mem_iff (pairwise_starts p text) (pairwise_placesFrom _ _ _)
    fun _ => h.mem_starts hp

theorem length_findAll (h : Marks p P n) (hp : p.solid = true) (text : List Char) :
    (p.findAll text).length = countFrom P false text := by
  rw [countFrom, ← h.starts_findAll hp, List.length_map]

end Marks

/-! ## Words -/

/-- A text starts with a word, after no word character. -/
def leads (word : List Char) (before : Bool) (s : List Char) : Bool :=
  !before && word.isPrefixOf s

/-- A text starts with a word that is on its own. -/
def leadsAlone (word : List Char) (before : Bool) (s : List Char) : Bool :=
  leads word before s && !(s.drop word.length).head?.any isWord

/-- Where the first letter of a word is none of the later ones, the word does not begin inside
itself. -/
theorem leads_append {c : Char} {later : List Char} (hc : c ∉ later) {before before' : Bool}
    {mid back : List Char} (h : leads (c :: later) before (mid ++ back) = true)
    (h' : leads (c :: later) before' back = true) (hne : mid ≠ []) :
    (c :: later).length ≤ mid.length := by
  obtain ⟨d, mid, rfl⟩ := List.exists_cons_of_ne_nil hne
  simp only [leads, Bool.and_eq_true, List.isPrefixOf_iff_prefix] at h h'
  obtain ⟨rest, rfl⟩ := h'.2
  have hlater : later <+: mid ++ c :: (later ++ rest) := (List.cons_prefix_cons.mp h.2).2
  have hmid : mid ++ [c] <+: mid ++ c :: (later ++ rest) := ⟨later ++ rest, by simp⟩
  by_contra hlt
  rw [List.length_cons, List.length_cons] at hlt
  have hin := List.prefix_of_prefix_length_le hmid hlater
    (by rw [List.length_append, List.length_singleton]; omega)
  exact hc (hin.subset (List.mem_append_right _ List.mem_cons_self))

theorem leads_nil {c : Char} {later : List Char} (before : Bool) :
    leads (c :: later) before [] = false := by
  rw [leads, List.isPrefixOf_cons_nil, Bool.and_false]

theorem eq_of_leads {c d : Char} {later s : List Char} {before : Bool}
    (h : leads (c :: later) before (d :: s) = true) : d = c := by
  rw [leads, List.isPrefixOf_cons_cons, Bool.and_eq_true, Bool.and_eq_true, beq_iff_eq] at h
  exact h.2.1.symm

theorem eq_of_leadsAlone {c d : Char} {later s : List Char} {before : Bool}
    (h : leadsAlone (c :: later) before (d :: s) = true) : d = c := by
  rw [leadsAlone, Bool.and_eq_true] at h
  exact eq_of_leads h.1

/-- No word begins where its first letter does not stand. -/
theorem placesFrom_append_of_not_mem {P : Bool → List Char → Bool} {c : Char}
    (hP : ∀ {before d s}, P before (d :: s) = true → d = c) (s : List Char) :
    ∀ {u : List Char} (before : Bool) (pos : Nat), c ∉ u →
      placesFrom P before pos (u ++ s) = placesFrom P (wordAfter before u) (pos + width u) s
  | [], _, _, _ => rfl
  | d :: u, before, pos, h => by
    rw [List.mem_cons, not_or] at h
    rw [List.cons_append, placesFrom, if_neg fun hd => h.1 (hP hd).symm,
      placesFrom_append_of_not_mem hP s _ _ h.2, wordAfter_cons, width, Nat.add_assoc]

theorem countFrom_append_of_not_mem {P : Bool → List Char → Bool} {c : Char}
    (hP : ∀ {before d s}, P before (d :: s) = true → d = c) {u : List Char} (s : List Char)
    (before : Bool) (h : c ∉ u) : countFrom P before (u ++ s) = countFrom P (wordAfter before u) s := by
  rw [countFrom, placesFrom_append_of_not_mem hP s before 0 h, length_placesFrom]

/-- Where a word leads with something else after it, it stands alone. -/
theorem leadsAlone_of_leads {word u s : List Char} {c : Char} {before : Bool}
    (hc : isWord c = false) (h : leads (word ++ c :: u) before s = true) :
    leadsAlone word before s = true := by
  rw [leads, Bool.and_eq_true, List.isPrefixOf_iff_prefix] at h
  obtain ⟨rest, rfl⟩ := h.2
  rw [leadsAlone, leads, h.1, List.append_assoc, List.drop_left,
    List.isPrefixOf_iff_prefix.mpr (List.prefix_append _ _)]
  simp [hc]

theorem countFrom_le {P Q : Bool → List Char → Bool} (h : ∀ word s, P word s = true → Q word s = true) :
    ∀ (word : Bool) (s : List Char), countFrom P word s ≤ countFrom Q word s
  | _, [] => Nat.le_refl _
  | word, c :: s => by
    have ih := countFrom_le h (isWord c) s
    rw [countFrom_cons, countFrom_cons]
    cases hP : P word (c :: s) with
    | false => simp only [Bool.false_eq_true, if_false]; split <;> omega
    | true => rw [h _ _ hP, if_pos rfl]; omega

/-- A text after a boundary is read where it leads, if it starts with a word character. -/
theorem marks_bounded {w : String} {c : Char} {later : List Char} (hw : w.toList = c :: later)
    (hc : c ∉ later) (hword : isWord c = true) :
    Marks (boundary ++ lit w) (leads w.toList) w.toList.length where
  run_eq front back := by
    show (if (Subject.of (front ++ back)).atBoundary front.length then
      ((litChars w.toList).on (.of (front ++ back)) .done).run front.length else none) = _
    rw [run_litChars, Subject.atBoundary_of (by simp), List.take_left, List.drop_left,
      getLast?_any_isWord, leads]
    cases hprefix : w.toList.isPrefixOf back with
    | false => simp
    | true =>
      obtain ⟨rest, rfl⟩ := List.isPrefixOf_iff_prefix.mp hprefix
      simp [hw, hword, Matcher.done]
  apart h h' hne := by
    rw [hw] at h h' ⊢
    exact leads_append hc h h' hne
  pos := by rw [hw]; exact Nat.succ_pos _
  nonempty before := by rw [hw, leads_nil]

/-- A word on its own is read where it leads and stands alone. -/
theorem marks_whole {w : String} {c : Char} {later : List Char} (hw : w.toList = c :: later)
    (hc : c ∉ later) (hword : w.toList.all isWord = true) :
    Marks (whole w) (leadsAlone w.toList) w.toList.length where
  run_eq front back := by
    rw [run_whole (by rw [hw]; exact List.cons_ne_nil _ _) hword, wordAt, List.take_left,
      List.drop_left, getLast?_any_isWord, leadsAlone, leads, List.head?_drop,
      List.getElem?_append_right (Nat.le_add_right _ _), Nat.add_sub_cancel_left,
      Bool.and_comm (w.toList.isPrefixOf back)]
    rfl
  apart h h' hne := by
    rw [leadsAlone, Bool.and_eq_true] at h h'
    rw [hw] at h h' ⊢
    exact leads_append hc h.1 h'.1 hne
  pos := by rw [hw]; exact Nat.succ_pos _
  nonempty before := by rw [leadsAlone, hw, leads_nil, Bool.false_and]

end Pattern

end Mend
