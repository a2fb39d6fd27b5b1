import Mend.Proofs.Pattern.Matches

/-!
# How a search goes

What a pattern reads at a place can be told step by step: a literal text is compared with what
stands there (`run_litChars`), and a greedy run of characters goes on for as long as they are of its
set when what follows it never fails (`run_many_set`). A search for all matches looks for the first
place where there is one and goes on at its end (`Matcher.all_of_leftmost?`), so that it misses a
match only where an earlier one stops after its start (`Matcher.mem_all_of_run`).
-/

namespace Mend

/-! ## Searches -/

namespace Matcher

variable {m : Matcher} {size : Nat}

/-- Every match has at least one character. -/
def Strict (m : Matcher) : Prop := ∀ i e, m.run i = some e → i < e.stop

theorem leftmost?_eq_none : ∀ {n i : Nat}, m.leftmost? n i = none →
    ∀ k, i ≤ k → k < i + n → m.run k = none
  | 0, _, _, k, hi, hk => by omega
  | n + 1, i, h, k, hi, hk => by
    rw [leftmost?] at h
    split at h
    · cases h
    · next hrun =>
      rcases Nat.lt_or_eq_of_le hi with hlt | rfl
      · exact leftmost?_eq_none h k hlt (by omega)
      · exact hrun

/-- Before the leftmost match there is none. -/
theorem run_of_lt_leftmost? {found : Nat × Ending} : ∀ {n i : Nat},
    m.leftmost? n i = some found → ∀ k, i ≤ k → k < found.1 → m.run k = none
  | 0, _, h, _, _, _ => by simp [leftmost?] at h
  | n + 1, i, h, k, hi, hk => by
    rw [leftmost?] at h
    split at h
    · cases h
      simp only at hk
      omega
    · next hrun =>
      rcases Nat.lt_or_eq_of_le hi with hlt | rfl
      · exact run_of_lt_leftmost? h k hlt hk
      · exact hrun

/-- After a match the search goes on at its end. -/
theorem all_of_leftmost? (hm : m.Strict) {fuel i start : Nat} {previous : Option Nat} {e : Ending}
    (h : m.leftmost? (size + 1 - i) i = some (start, e)) :
    m.all size (fuel + 1) previous i = (start, e) :: m.all size fuel (some e.stop) e.stop := by
  have hlt := hm start e (Pattern.run_of_leftmost? h)
  rw [all, h]
  simp only
  rw [if_neg (by omega)]

/-- A match is found unless one that starts before it stops after its start. -/
theorem mem_all_of_run (hm : m.Strict) {k : Nat} {e : Ending} (hrun : m.run k = some e)
    (hk : k ≤ size) (hfree : ∀ j < k, ∀ e', m.run j = some e' → e'.stop ≤ k) :
    ∀ {fuel i : Nat} {previous : Option Nat}, size < fuel + i → i ≤ k →
      (k, e) ∈ m.all size fuel previous i
  | 0, i, _, hfuel, hi => by omega
  | fuel + 1, i, previous, hfuel, hi => by
    cases hleft : m.leftmost? (size + 1 - i) i with
    | none => rw [leftmost?_eq_none hleft k hi (by omega)] at hrun; cases hrun
    | some found =>
      obtain ⟨start, e'⟩ := found
      have hstart := Pattern.run_of_leftmost? hleft
      have hle : start ≤ k := by
        by_contra hlt
        rw [run_of_lt_leftmost? hleft k hi (by simpa using hlt)] at hrun
        cases hrun
      rw [all_of_leftmost? hm hleft]
      rcases Nat.lt_or_eq_of_le hle with hlt | rfl
      · have hstop := hfree start hlt e' hstart
        have hadvance := hm start e' hstart
        have hrange := leftmost?_range hleft
        simp only at hrange hadvance
        exact List.mem_cons_of_mem _ (mem_all_of_run hm hrun hk hfree (by omega) hstop)
      · obtain rfl := Option.some.inj (hrun.symm.trans hstart)
        exact List.mem_cons_self

end Matcher

/-! ## Patterns at a place -/

namespace Subject

variable {text : List Char}

@[simp] theorem size_of (text : List Char) : (Subject.of text).size = text.length := by
  simp [size, of]

@[simp] theorem getElem?_of (text : List Char) (i : Nat) :
    (Subject.of text).chars[i]? = text[i]? := by
  simp [of]

theorem runLength_go_eq {p : Char → Bool} {i : Nat} : ∀ {limit n : Nat},
    (text.drop (i + n)).length ≤ limit → runLength.go (.of text) p i limit n =
      n + ((text.drop (i + n)).takeWhile p).length
  | 0, n, h => by
    rw [runLength.go, List.length_eq_zero_iff.mp (Nat.le_zero.mp h)]
    rfl
  | limit + 1, n, h => by
    rw [runLength.go, getElem?_of, ← List.head?_drop]
    cases hrest : text.drop (i + n) with
    | nil => simp
    | cons c rest =>
      have hnext : text.drop (i + (n + 1)) = rest := by
        rw [← Nat.add_assoc, ← List.drop_drop, hrest, List.drop_one, List.tail_cons]
      rw [hrest, List.length_cons] at h
      rw [List.head?_cons, Option.any_some]
      split
      · next hp =>
        rw [runLength_go_eq (by rw [hnext]; omega), hnext, List.takeWhile_cons_of_pos hp,
          List.length_cons]
        omega
      · next hp => rw [List.takeWhile_cons_of_neg hp, List.length_nil, Nat.add_zero]

/-- So many characters in a row are of a set. -/
theorem runLength_of (p : Char → Bool) (i : Nat) :
    (Subject.of text).runLength p (text.length - i) i = ((text.drop i).takeWhile p).length := by
  rw [runLength, runLength_go_eq (by simp), Nat.zero_add, Nat.add_zero]

theorem atBoundary_of {i : Nat} (h : i ≤ text.length) : (Subject.of text).atBoundary i =
    ((text.take i).getLast?.any Text.isWord != (text[i]?).any Text.isWord) := by
  rw [atBoundary, before?, getElem?_of, getElem?_of]
  cases i with
  | zero => simp
  | succ i =>
    rw [if_neg (by omega), Nat.add_sub_cancel, List.getLast?_take, if_neg (by omega),
      Nat.add_sub_cancel, List.getElem?_eq_getElem h, Option.some_or]

end Subject

namespace Pattern

variable {s : Subject} {text : List Char} {next : Matcher} {i : Nat}

@[simp] theorem on_append (p q : Pattern) (next : Matcher) :
    (p ++ q).on s next = p.on s (q.on s next) := rfl

/-- The second alternative is run where the first fails. -/
theorem run_orElse (p q : Pattern) : ((p <|> q).on s next).run i =
    ((p.on s next).run i).or ((q.on s next).run i) := by
  show ((alt p q).on s next).run i = _
  simp only [Pattern.on]
  cases (p.on s next).run i <;> simp

theorem run_set (p : Char → Bool) : ((set p).on (.of text) next).run i =
    if (text[i]?).any p then next.run (i + 1) else none := by
  simp only [Pattern.on, Subject.getElem?_of]
  cases text[i]? <;> simp

/-- A literal text is read where it stands. -/
theorem run_litChars : ∀ {cs : List Char} {i : Nat}, ((litChars cs).on (.of text) next).run i =
    if cs.isPrefixOf (text.drop i) then next.run (i + cs.length) else none
  | [], i => by simp [litChars, Pattern.on]
  | [c], i => by
    rw [litChars, run_set, ← List.head?_drop]
    cases text.drop i with
    | nil => rfl
    | cons d rest =>
      rw [List.head?_cons, Option.any_some, List.isPrefixOf_cons_cons, List.isPrefixOf_nil_left,
        Bool.and_true, BEq.comm]
      rfl
  | c :: d :: cs, i => by
    show ((set (· == c) ++ litChars (d :: cs)).on (.of text) next).run i = _
    rw [on_append, run_set, run_litChars, ← List.head?_drop, ← List.drop_drop]
    cases text.drop i with
    | nil => rfl
    | cons e rest =>
      rw [List.drop_one, List.tail_cons, List.isPrefixOf_cons_cons, List.head?_cons, Option.any_some,
        BEq.comm, List.length_cons (a := c), Nat.add_right_comm, Nat.add_assoc]
      cases c == e <;> rfl

/-- A word stands at a place of the text, on its own. -/
def wordAt (word text : List Char) (i : Nat) : Bool :=
  word.isPrefixOf (text.drop i) && !(text.take i).getLast?.any Text.isWord
    && !(text[i + word.length]?).any Text.isWord

theorem exists_of_wordAt {word : List Char} (h : wordAt word text i) :
    ∃ rest, text.drop i = word ++ rest := by
  simp only [wordAt, Bool.and_eq_true] at h
  obtain ⟨rest, hrest⟩ := List.isPrefixOf_iff_prefix.mp h.1.1
  exact ⟨rest, hrest.symm⟩

/-- A word on its own is read where it stands. -/
theorem run_whole {word : String} (hne : word.toList ≠ [])
    (hword : word.toList.all Text.isWord = true) : ((whole word).on (.of text) next).run i =
      if wordAt word.toList text i then next.run (i + word.toList.length) else none := by
  show (if (Subject.of text).atBoundary i then
    ((litChars word.toList).on (.of text) (boundary.on (.of text) next)).run i else none) = _
  rw [run_litChars, wordAt]
  cases hprefix : word.toList.isPrefixOf (text.drop i) with
  | false => simp
  | true =>
    obtain ⟨rest, hrest⟩ := List.isPrefixOf_iff_prefix.mp hprefix
    have hle : i + word.toList.length ≤ text.length := by
      have hlength := congrArg List.length hrest
      have hpos := List.length_pos_iff.mpr hne
      rw [List.length_append, List.length_drop] at hlength
      omega
    have hhead : (text[i]?).any Text.isWord := by
      rw [← List.head?_drop, ← hrest, List.head?_append_of_ne_nil _ hne, List.head?_eq_some_head hne]
      exact List.all_eq_true.mp hword _ (List.head_mem hne)
    have hlast : (text.take (i + word.toList.length)).getLast?.any Text.isWord := by
      rw [List.take_add, ← hrest, List.take_left, List.getLast?_append_of_ne_nil _ hne,
        List.getLast?_eq_some_getLast hne]
      exact List.all_eq_true.mp hword _ (List.getLast_mem hne)
    simp only [Pattern.on, Subject.atBoundary_of (show i ≤ text.length by omega),
      Subject.atBoundary_of hle, hhead, hlast]
    cases (text.take i).getLast?.any Text.isWord <;>
      cases (text[i + word.toList.length]?).any Text.isWord <;> rfl

/-- What follows a greedy run of characters is tried where the run ends, if it never fails. -/
theorem run_many_set {p : Char → Bool} (h : ∀ j, (next.run j).isSome) :
    ((many (set p)).on (.of text) next).run i =
      next.run (i + ((text.drop i).takeWhile p).length) := by
  show ((chars true p).on (.of text) next).run i = _
  rw [Pattern.on]
  simp only [Matcher.outcome_row, if_true, Subject.size_of, Subject.runLength_of, Matcher.latest?]
  obtain ⟨e, he⟩ := Option.isSome_iff_exists.mp (h (i + ((text.drop i).takeWhile p).length))
  rw [he]
  rfl

end Pattern

end Mend
