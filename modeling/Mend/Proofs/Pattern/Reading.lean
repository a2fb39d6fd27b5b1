import Mend.Pattern.Search
import Mend.Proofs.Text.Offset

/-!
# What a pattern reads

`Pattern.Reads` says, without an order of attempts, that a pattern reads the text from one place to
another and leaves marks on the way. A search finds only what a pattern reads (`reads_of_on`,
`reads_of_find?`), and what stands between two places is cut out by their offsets (`cut_offset`).
-/

namespace Mend

/-! ## Places and offsets -/

namespace Subject

theorem foldl_offsets (s : List Char) : ∀ (offsets : Array Nat) (pos : Nat),
    s.foldl (fun (x : Array Nat × Nat) c => (x.1.push x.2, x.2 + c.utf8Size)) (offsets, pos) =
      (offsets ++ ((List.range s.length).map fun i => pos + Text.width (s.take i)).toArray,
        pos + Text.width s) := by
  induction s with
  | nil => simp [Text.width]
  | cons c s ih =>
    intro offsets pos
    rw [List.foldl_cons, ih, List.length_cons, List.range_succ_eq_map, Text.width, Nat.add_assoc]
    simp [Function.comp_def, Text.width, Nat.add_assoc]

theorem of_eq (s : List Char) : Subject.of s = ⟨s.toArray,
    ((List.range s.length).map fun i => Text.width (s.take i)).toArray.push (Text.width s)⟩ := by
  have hfold := foldl_offsets s #[] 0
  simp only [Nat.zero_add, Array.empty_append] at hfold
  show (⟨s.toArray, (s.foldl (fun (x : Array Nat × Nat) c => (x.1.push x.2, x.2 + c.utf8Size))
    (#[], 0)).1.push (s.foldl (fun (x : Array Nat × Nat) c => (x.1.push x.2, x.2 + c.utf8Size))
    (#[], 0)).2⟩ : Subject) = _
  rw [hfold]

/-- The offset of a place is the width of what comes before it. -/
theorem offset_of {s : List Char} {i : Nat} (h : i ≤ s.length) :
    (Subject.of s).offset i = Text.width (s.take i) := by
  rw [of_eq, offset]
  rcases Nat.lt_or_eq_of_le h with hlt | rfl
  · simp [List.getElem?_append_left, hlt]
  · simp

/-- What stands between two places is cut out by their offsets. -/
theorem cut_offset {s : List Char} {i j : Nat} (hij : i ≤ j) (hj : j ≤ s.length) :
    Text.cut ((Subject.of s).offset i) ((Subject.of s).offset j) s = (s.take j).drop i := by
  have hmid : s.take j = s.take i ++ (s.take j).drop i := by
    have h := List.take_append_drop i (s.take j)
    rwa [List.take_take, Nat.min_eq_left hij, eq_comm] at h
  have hcut := Text.cut_append (s.take i) ((s.take j).drop i) (s.drop j)
  rw [← Text.width_append, ← hmid, List.take_append_drop] at hcut
  rw [offset_of (Nat.le_trans hij hj), offset_of hj, hcut]

end Subject

namespace Pattern

/-! ## Readings -/

variable {s : Subject}

/-- The pattern reads the text from place `i` to place `j`, with marks. -/
inductive Reads (s : Subject) : Pattern → Nat → Nat → List Mark → Prop
  | empty (i : Nat) : Reads s .empty i i []
  | set {p : Char → Bool} {i : Nat} {c : Char} : s.chars[i]? = some c → p c = true →
      Reads s (.set p) i (i + 1) []
  | boundary {i : Nat} : s.atBoundary i = true → Reads s .boundary i i []
  | textStart : Reads s .textStart 0 0 []
  | textEnd : Reads s .textEnd s.size s.size []
  | lineStart {i : Nat} : (i = 0 ∨ s.before? i = some '\n') → Reads s .lineStart i i []
  | seq {p q : Pattern} {i j k : Nat} {ms ns : List Mark} : Reads s p i j ms → Reads s q j k ns →
      Reads s (.seq p q) i k (ms ++ ns)
  | left {p q : Pattern} {i j : Nat} {ms : List Mark} : Reads s p i j ms →
      Reads s (.alt p q) i j ms
  | right {p q : Pattern} {i j : Nat} {ms : List Mark} : Reads s q i j ms →
      Reads s (.alt p q) i j ms
  | chars {greedy : Bool} {p : Char → Bool} (i n : Nat) :
      (∀ m < n, (s.chars[i + m]?).any p = true) → Reads s (.chars greedy p) i (i + n) []
  | stop (greedy : Bool) (p : Pattern) (i : Nat) : Reads s (.star greedy p) i i []
  | again {greedy : Bool} {p : Pattern} {i j k : Nat} {ms ns : List Mark} : Reads s p i j ms →
      Reads s (.star greedy p) j k ns → Reads s (.star greedy p) i k (ms ++ ns)
  | group (g : Nat) {p : Pattern} {i j : Nat} {ms : List Mark} : Reads s p i j ms →
      Reads s (.group g p) i j (.opened g i :: ms ++ [.closed g j])

theorem reads_append {p q : Pattern} {i k : Nat} {ms : List Mark} (h : Reads s (p ++ q) i k ms) :
    ∃ j ms₁ ms₂, Reads s p i j ms₁ ∧ Reads s q j k ms₂ ∧ ms = ms₁ ++ ms₂ := by
  change Reads s (.seq p q) i k ms at h
  cases h with
  | seq hp hq => exact ⟨_, _, _, hp, hq, rfl⟩

theorem marks_of_textEnd {i j : Nat} {ms : List Mark} (h : Reads s .textEnd i j ms) : ms = [] := by
  cases h
  rfl

theorem marks_of_chars {greedy : Bool} {p : Char → Bool} {i j : Nat} {ms : List Mark}
    (h : Reads s (.chars greedy p) i j ms) : ms = [] := by
  cases h
  rfl

theorem reads_opt {p : Pattern} {i j : Nat} {ms : List Mark} (h : Reads s (opt p) i j ms) :
    Reads s p i j ms ∨ (i = j ∧ ms = []) := by
  cases h with
  | left hp => exact Or.inl hp
  | right hempty =>
    cases hempty
    exact Or.inr ⟨rfl, rfl⟩

/-- The ending comes from a reading of the pattern up to some place, and from what follows there. -/
def Through (s : Subject) (p : Pattern) (next : Matcher) (i : Nat) (e : Ending) : Prop :=
  ∃ j ms e', Reads s p i j ms ∧ next.run j = some e' ∧ e = ⟨e'.stop, ms ++ e'.marks⟩

theorem through_of_run {p : Pattern} {next : Matcher} {i j : Nat} {e : Ending}
    (h : Reads s p i j []) (hnext : next.run j = some e) : Through s p next i e :=
  ⟨j, [], e, h, hnext, rfl⟩

/-! ## Repetitions -/

theorem run_of_latest? {m : Matcher} {i : Nat} {e : Ending} :
    ∀ {n : Nat}, m.latest? i n = some e → ∃ k < n, m.run (i + k) = some e
  | 0, h => by simp [Matcher.latest?] at h
  | n + 1, h => by
    rw [Matcher.latest?, Option.orElse_eq_orElse, Option.orElse_eq_or, Option.or_eq_some_iff] at h
    rcases h with h | ⟨-, h⟩
    · exact ⟨n, Nat.lt_succ_self n, h⟩
    · obtain ⟨k, hk, hrun⟩ := run_of_latest? h
      exact ⟨k, by omega, hrun⟩

theorem run_of_earliest? {m : Matcher} {e : Ending} :
    ∀ {n i : Nat}, m.earliest? i n = some e → ∃ k < n, m.run (i + k) = some e
  | 0, i, h => by simp [Matcher.earliest?] at h
  | n + 1, i, h => by
    rw [Matcher.earliest?, Option.orElse_eq_orElse, Option.orElse_eq_or, Option.or_eq_some_iff] at h
    rcases h with h | ⟨-, h⟩
    · exact ⟨0, by omega, h⟩
    · obtain ⟨k, hk, hrun⟩ := run_of_earliest? h
      exact ⟨k + 1, by omega, by rwa [← Nat.add_assoc, Nat.add_right_comm]⟩

theorem runLength_go {p : Char → Bool} {i : Nat} : ∀ (limit n : Nat),
    (∀ m < n, (s.chars[i + m]?).any p = true) →
      ∀ m < Subject.runLength.go s p i limit n, (s.chars[i + m]?).any p = true
  | 0, n, h => h
  | limit + 1, n, h => by
    rw [Subject.runLength.go]
    split
    · next hn =>
      refine runLength_go limit (n + 1) fun m hm => ?_
      rcases Nat.lt_succ_iff_lt_or_eq.mp hm with hm | rfl
      · exact h m hm
      · exact hn
    · exact h

theorem runLength_spec {p : Char → Bool} {limit i : Nat} :
    ∀ m < s.runLength p limit i, (s.chars[i + m]?).any p = true :=
  runLength_go limit 0 fun m hm => absurd hm (Nat.not_lt_zero m)

theorem through_loop {greedy : Bool} {p : Pattern} {next : Matcher}
    (ih : ∀ {next : Matcher} {i : Nat} {e : Ending}, (p.on s next).run i = some e →
      Through s p next i e) :
    ∀ {fuel i : Nat} {e : Ending}, Matcher.loop greedy (p.on s) next fuel i = some e →
      Through s (.star greedy p) next i e
  | 0, i, e, h => through_of_run (.stop greedy p i) h
  | fuel + 1, i, e, h => by
    have hagain : ∀ {e : Ending}, ((p.on s ⟨false, fun j => if i < j then
        Matcher.loop greedy (p.on s) next fuel j else none⟩).run i = some e) →
        Through s (.star greedy p) next i e := by
      intro e h
      obtain ⟨j, ms, e', hreads, hrun, rfl⟩ := ih h
      simp only [Option.ite_none_right_eq_some] at hrun
      obtain ⟨k, ns, e'', hreads', hrun', rfl⟩ := through_loop ih hrun.2
      exact ⟨k, ms ++ ns, e'', .again hreads hreads', hrun', by simp⟩
    rw [Matcher.loop] at h
    cases greedy with
    | true =>
      simp only [if_true] at h
      split at h
      · next ha =>
        cases h
        exact hagain ha
      · exact through_of_run (.stop true p i) h
    | false =>
      simp only [Bool.false_eq_true, if_false] at h
      split at h
      · next hn =>
        cases h
        exact through_of_run (.stop false p i) hn
      · exact hagain h

/-! ## Searching -/

/-- A match is found only where the pattern reads. -/
theorem reads_of_on : ∀ {p : Pattern} {next : Matcher} {i : Nat} {e : Ending},
    (p.on s next).run i = some e → Through s p next i e
  | .empty, next, i, e, h => through_of_run (.empty i) h
  | .set p, next, i, e, h => by
    simp only [Pattern.on] at h
    split at h
    · next c hc =>
      rw [Option.ite_none_right_eq_some] at h
      exact through_of_run (.set hc h.1) h.2
    · cases h
  | .boundary, next, i, e, h => by
    simp only [Pattern.on, Option.ite_none_right_eq_some] at h
    exact through_of_run (.boundary h.1) h.2
  | .textStart, next, i, e, h => by
    simp only [Pattern.on, Option.ite_none_right_eq_some] at h
    obtain ⟨rfl, h⟩ := h
    exact through_of_run .textStart h
  | .textEnd, next, i, e, h => by
    simp only [Pattern.on, Option.ite_none_right_eq_some] at h
    obtain ⟨rfl, h⟩ := h
    exact through_of_run .textEnd h
  | .lineStart, next, i, e, h => by
    simp only [Pattern.on, Option.ite_none_right_eq_some] at h
    exact through_of_run (.lineStart h.1) h.2
  | .seq p q, next, i, e, h => by
    rw [Pattern.on] at h
    obtain ⟨j, ms, e', hp, hrun, rfl⟩ := reads_of_on h
    obtain ⟨k, ns, e'', hq, hrun', rfl⟩ := reads_of_on hrun
    exact ⟨k, ms ++ ns, e'', .seq hp hq, hrun', by simp⟩
  | .alt p q, next, i, e, h => by
    simp only [Pattern.on] at h
    split at h
    · next hleft =>
      cases h
      obtain ⟨j, ms, e', hp, hrun, rfl⟩ := reads_of_on hleft
      exact ⟨j, ms, e', .left hp, hrun, rfl⟩
    · obtain ⟨j, ms, e', hq, hrun, rfl⟩ := reads_of_on h
      exact ⟨j, ms, e', .right hq, hrun, rfl⟩
  | .chars greedy p, next, i, e, h => by
    simp only [Pattern.on, Matcher.outcome_row] at h
    obtain ⟨k, hk, hrun⟩ : ∃ k < s.runLength p (s.size - i) i + 1, next.run (i + k) = some e := by
      cases greedy with
      | true => exact run_of_latest? h
      | false => exact run_of_earliest? h
    have hread : ∀ m < k, (s.chars[i + m]?).any p = true := fun m hm =>
      runLength_spec m (Nat.lt_of_lt_of_le hm (Nat.lt_succ_iff.mp hk))
    exact through_of_run (.chars i k hread) hrun
  | .star greedy p, next, i, e, h => by
    simp only [Pattern.on] at h
    obtain ⟨j, ms, e', hp, hrun, rfl⟩ := through_loop reads_of_on h
    rw [Matcher.run_shared] at hrun
    exact ⟨j, ms, e', hp, hrun, rfl⟩
  | .group g p, next, i, e, h => by
    simp only [Pattern.on] at h
    obtain ⟨e₁, hbody, rfl⟩ := Option.map_eq_some_iff.mp h
    obtain ⟨j, ms, e₂, hp, hrun, rfl⟩ := reads_of_on hbody
    obtain ⟨e₃, hnext, rfl⟩ := Option.map_eq_some_iff.mp hrun
    exact ⟨j, _, e₃, .group g hp, hnext, by simp [Ending.marked]⟩

theorem run_of_leftmost? {m : Matcher} {found : Nat × Ending} :
    ∀ {n i : Nat}, m.leftmost? n i = some found → m.run found.1 = some found.2
  | 0, i, h => by simp [Matcher.leftmost?] at h
  | n + 1, i, h => by
    rw [Matcher.leftmost?] at h
    split at h
    · next hrun =>
      cases h
      exact hrun
    · exact run_of_leftmost? h

/-- What a search finds, the pattern reads. -/
theorem reads_of_find? {p : Pattern} {text : List Char} {m : Match} (h : p.find? text = some m) :
    ∃ i j ms, Reads (.of text) p i j ms ∧
      m = ⟨(Subject.of text).offset i, (Subject.of text).offset j,
        ms.map (·.mapPlace (Subject.of text).offset)⟩ := by
  simp only [Pattern.find?] at h
  obtain ⟨⟨i, e⟩, hleft, rfl⟩ := Option.map_eq_some_iff.mp h
  obtain ⟨j, ms, e', hreads, hdone, rfl⟩ := reads_of_on (run_of_leftmost? hleft)
  obtain rfl := Option.some.inj hdone
  exact ⟨i, j, ms, hreads, by simp [Match.of]⟩

end Pattern

end Mend
