import Mend.Proofs.Pattern.Reading

/-!
# The parts of a match

A pattern that is a sequence cuts what it reads into parts, one for each of its members. A part is
what stands between two places (`Text.part`); the parts in order make up the whole (`part_append`),
and a group remembers one of them (`groupText?_eq`).
-/

namespace Mend

/-! ## What stands between two places -/

namespace Text

/-- What stands between two places of a text. -/
def part (s : List Char) (i j : Nat) : List Char := (s.take j).drop i

theorem part_append {s : List Char} {i j k : Nat} (hij : i ≤ j) (hjk : j ≤ k) :
    part s i j ++ part s j k = part s i k := by
  have hsum : j - i + (k - j) = k - i := by omega
  have hdrop : s.drop j = (s.drop i).drop (j - i) := by
    rw [List.drop_drop, Nat.add_sub_cancel' hij]
  rw [part, part, part, List.drop_take, List.drop_take, List.drop_take, hdrop, ← hsum,
    List.take_add]

theorem part_self (s : List Char) (i : Nat) : part s i i = [] :=
  List.drop_eq_nil_of_le (List.length_take_le _ _)

theorem part_zero (s : List Char) (j : Nat) : part s 0 j = s.take j := rfl

theorem part_length (s : List Char) (i : Nat) : part s i s.length = s.drop i := by
  rw [part, List.take_length]

theorem part_subset (s : List Char) (i j : Nat) : part s i j ⊆ s :=
  List.Subset.trans (List.drop_subset _ _) (List.take_subset _ _)

theorem part_succ {s : List Char} {i : Nat} {c : Char} (h : s[i]? = some c) :
    part s i (i + 1) = [c] := by
  obtain ⟨hlt, rfl⟩ := List.getElem?_eq_some_iff.mp h
  rw [part, List.take_succ_eq_append_getElem hlt, List.drop_left' (by simp; omega)]

end Text

namespace Pattern

open Text

variable {text : List Char} {i j : Nat} {ms : List Mark}

/-! ## Where a reading stops -/

theorem Reads.le {s : Subject} {p : Pattern} (h : Reads s p i j ms) : i ≤ j := by
  induction h with
  | empty | boundary | textStart | textEnd | lineStart | stop => exact Nat.le_refl _
  | set => exact Nat.le_succ _
  | seq _ _ ihp ihq => exact Nat.le_trans ihp ihq
  | left _ ih | right _ ih | group _ _ ih => exact ih
  | chars i n => exact Nat.le_add_right _ _
  | again _ _ ihp ihq => exact Nat.le_trans ihp ihq

theorem Reads.le_length {p : Pattern} (h : Reads (.of text) p i j ms) (hi : i ≤ text.length) :
    j ≤ text.length := by
  induction h with
  | empty | boundary | textStart | lineStart | stop => exact hi
  | textEnd => exact Nat.le_of_eq (by simp [Subject.size, Subject.of])
  | @set p i c hc hp =>
    have hget : text[i]? = some c := by simpa [Subject.of] using hc
    exact (List.getElem?_eq_some_iff.mp hget).1
  | seq _ _ ihp ihq => exact ihq (ihp hi)
  | left _ ih | right _ ih | group _ _ ih => exact ih hi
  | chars i n hn =>
    cases n with
    | zero => exact hi
    | succ n =>
      have hlast := hn n (Nat.lt_succ_self n)
      cases hget : text[i + n]? with
      | none => simp [Subject.of, hget] at hlast
      | some c => exact (List.getElem?_eq_some_iff.mp hget).1
  | again _ _ ihp ihq => exact ihq (ihp hi)

theorem reads_textStart {s : Subject} (h : Reads s .textStart i j ms) : i = 0 ∧ j = 0 ∧ ms = [] := by
  cases h
  exact ⟨rfl, rfl, rfl⟩

theorem stop_of_textEnd (h : Reads (.of text) .textEnd i j ms) :
    i = text.length ∧ j = text.length := by
  have hsize : (Subject.of text).size = text.length := by simp [Subject.size, Subject.of]
  cases h
  exact ⟨hsize, hsize⟩

/-! ## What the members of a sequence read -/

theorem part_of_set {p : Char → Bool} (h : Reads (.of text) (.set p) i j ms) :
    ∃ c, part text i j = [c] ∧ p c = true := by
  cases h with
  | set hc hp => exact ⟨_, part_succ (by simpa [Subject.of] using hc), hp⟩

theorem part_of_chars {greedy : Bool} {p : Char → Bool}
    (h : Reads (.of text) (.chars greedy p) i j ms) : (part text i j).all p = true := by
  cases h with
  | chars i n hn =>
    induction n with
    | zero => rw [Nat.add_zero, part_self, List.all_nil]
    | succ n ih =>
      have hlast := hn n (Nat.lt_succ_self n)
      obtain ⟨c, hc, hp⟩ : ∃ c, text[i + n]? = some c ∧ p c = true := by
        cases hget : text[i + n]? with
        | none => simp [Subject.of, hget] at hlast
        | some c => exact ⟨c, rfl, by simpa [Subject.of, hget] using hlast⟩
      rw [← Nat.add_assoc, ← part_append (Nat.le_add_right i n) (Nat.le_succ _), List.all_append,
        ih fun m hm => hn m (Nat.lt_succ_of_lt hm), part_succ hc]
      simpa using hp

theorem part_of_litChars : ∀ {cs : List Char} {i j : Nat} {ms : List Mark},
    Reads (.of text) (litChars cs) i j ms → part text i j = cs
  | [], i, j, ms, h => by
    cases h
    exact part_self _ _
  | [c], i, j, ms, h => by
    obtain ⟨d, hd, hp⟩ := part_of_set h
    rw [hd, beq_iff_eq.mp hp]
  | c :: d :: cs, i, j, ms, h => by
    obtain ⟨k, ms₁, ms₂, hfirst, hrest, rfl⟩ := reads_append h
    obtain ⟨e, he, hp⟩ := part_of_set hfirst
    rw [← part_append hfirst.le hrest.le, he, part_of_litChars hrest, beq_iff_eq.mp hp]
    rfl

theorem part_of_lit {w : String} (h : Reads (.of text) (lit w) i j ms) :
    part text i j = w.toList :=
  part_of_litChars h

theorem part_of_many1 {p : Char → Bool} (h : Reads (.of text) (many1 (.set p)) i j ms) :
    part text i j ≠ [] ∧ (part text i j).all p = true := by
  obtain ⟨k, ms₁, ms₂, hfirst, hrest, rfl⟩ := reads_append h
  obtain ⟨c, hc, hp⟩ := part_of_set hfirst
  rw [← part_append hfirst.le hrest.le, hc]
  exact ⟨by simp, by simp [hp, part_of_chars hrest]⟩

/-! ## Groups -/

/-- The pattern has no groups. -/
def groupless : Pattern → Bool
  | seq p q | alt p q => p.groupless && q.groupless
  | star _ p => p.groupless
  | group _ _ => false
  | _ => true

theorem marks_of_groupless {s : Subject} {p : Pattern} (h : Reads s p i j ms)
    (hp : p.groupless = true) : ms = [] := by
  induction h with
  | empty | boundary | textStart | textEnd | lineStart | stop | set | chars => rfl
  | seq _ _ ihp ihq =>
    rw [groupless, Bool.and_eq_true] at hp
    rw [ihp hp.1, ihq hp.2, List.append_nil]
  | left _ ih =>
    rw [groupless, Bool.and_eq_true] at hp
    exact ih hp.1
  | right _ ih =>
    rw [groupless, Bool.and_eq_true] at hp
    exact ih hp.2
  | again _ _ ihp ihq => rw [ihp hp, ihq hp, List.append_nil]
  | group => cases hp

/-- A sequence that ends in a group reads what the group remembers last. -/
theorem reads_append_group {s : Subject} {p q : Pattern} {g k : Nat} (hq : q.groupless = true)
    (h : Reads s (p ++ group g q) i k ms) :
    ∃ j ns, Reads s p i j ns ∧ Reads s q j k [] ∧ ms = ns ++ [.opened g j, .closed g k] := by
  obtain ⟨j, ns, _, hp, hgroup, rfl⟩ := reads_append h
  cases hgroup with
  | @group _ _ _ _ inner hinner =>
    obtain rfl := marks_of_groupless hinner hq
    exact ⟨j, ns, hp, hinner, rfl⟩

/-- A group opens where the marks say, whatever the places are put through. -/
theorem filterMap_opened? (f : Nat → Nat) (k : Nat) (ms : List Mark) :
    (ms.map (·.mapPlace f)).filterMap (·.opened? k) = (ms.filterMap (·.opened? k)).map f := by
  rw [List.filterMap_map, List.map_filterMap]
  refine List.filterMap_congr fun mark _ => ?_
  cases mark <;> simp only [Function.comp_apply, Mark.mapPlace, Mark.opened?] <;>
    first | rfl | (split <;> rfl)

/-- And it closes where they say. -/
theorem filterMap_closed? (f : Nat → Nat) (k : Nat) (ms : List Mark) :
    (ms.map (·.mapPlace f)).filterMap (·.closed? k) = (ms.filterMap (·.closed? k)).map f := by
  rw [List.filterMap_map, List.map_filterMap]
  refine List.filterMap_congr fun mark _ => ?_
  cases mark <;> simp only [Function.comp_apply, Mark.mapPlace, Mark.closed?] <;>
    first | rfl | (split <;> rfl)

/-- Where a group stands that took part in a match once. -/
theorem group?_eq {m : Match} {f : Nat → Nat} {k a b : Nat} (hm : m.marks = ms.map (·.mapPlace f))
    (hopened : ms.filterMap (·.opened? k) = [a]) (hclosed : ms.filterMap (·.closed? k) = [b]) :
    m.group? k = some ⟨f a, f b⟩ := by
  rw [Match.group?, hm, filterMap_opened?, filterMap_closed?, hopened, hclosed]
  rfl

/-- What such a group matched. -/
theorem groupText?_eq {m : Match} {k a b : Nat}
    (hm : m.marks = ms.map (·.mapPlace (Subject.of text).offset))
    (hopened : ms.filterMap (·.opened? k) = [a]) (hclosed : ms.filterMap (·.closed? k) = [b])
    (hab : a ≤ b) (hb : b ≤ text.length) : m.groupText? k text = some (part text a b) := by
  rw [Match.groupText?, group?_eq hm hopened hclosed]
  exact congrArg some (Subject.cut_offset hab hb)

end Pattern

end Mend
