import Mend.Proofs.Pattern.Running

/-!
# The texts that a pattern takes

What a pattern reads is a text that it takes (`takes_of_reads`), whatever stands around it. A
pattern of characters, alternatives and runs takes a text wherever it stands: a search that tries it
there finds a match (`run_of_takes`), though perhaps not this one. A boundary at its start is all
that such a pattern may ask of what comes before (`run_of_takes_bounded`).
-/

namespace Mend.Pattern

open Text

/-- The pattern takes the text. Boundaries and anchors take nothing. -/
def Takes : Pattern → List Char → Prop
  | set p, s => ∃ c, s = [c] ∧ p c = true
  | seq p q, s => ∃ u v, s = u ++ v ∧ p.Takes u ∧ q.Takes v
  | alt p q, s => p.Takes s ∨ q.Takes s
  | chars _ p, s => s.all p = true
  | star _ p, s => ∃ parts : List (List Char), s = parts.flatten ∧ ∀ part ∈ parts, p.Takes part
  | group _ p, s => p.Takes s
  | _, s => s = []

theorem takes_append {p q : Pattern} {s : List Char} :
    (p ++ q).Takes s ↔ ∃ u v, s = u ++ v ∧ p.Takes u ∧ q.Takes v := Iff.rfl

theorem takes_orElse {p q : Pattern} {s : List Char} :
    (p <|> q).Takes s ↔ p.Takes s ∨ q.Takes s := Iff.rfl

theorem takes_opt {p : Pattern} {s : List Char} : (opt p).Takes s ↔ p.Takes s ∨ s = [] := Iff.rfl

theorem takes_litChars : ∀ {cs s : List Char}, (litChars cs).Takes s ↔ s = cs
  | [], s => Iff.rfl
  | [c], s => by simp [litChars, Takes]
  | c :: d :: cs, s => by
    show (set (· == c) ++ litChars (d :: cs)).Takes s ↔ _
    rw [takes_append]
    constructor
    · rintro ⟨_, v, rfl, ⟨e, rfl, he⟩, hv⟩
      rw [takes_litChars.mp hv, beq_iff_eq.mp he]
      rfl
    · rintro rfl
      exact ⟨[c], d :: cs, rfl, ⟨c, rfl, beq_self_eq_true c⟩, takes_litChars.mpr rfl⟩

theorem takes_lit {w : String} {s : List Char} : (lit w).Takes s ↔ s = w.toList := takes_litChars

variable {text : List Char}

/-- What a pattern reads it takes. -/
theorem takes_of_reads {p : Pattern} {i j : Nat} {ms : List Mark} (h : Reads (.of text) p i j ms) :
    p.Takes (part text i j) := by
  induction h with
  | empty | boundary | textStart | textEnd | lineStart => exact part_self _ _
  | set hc hp => exact ⟨_, part_succ (by simpa using hc), hp⟩
  | seq hp hq ihp ihq => exact ⟨_, _, (part_append hp.le hq.le).symm, ihp, ihq⟩
  | left _ ih => exact Or.inl ih
  | right _ ih => exact Or.inr ih
  | chars i n hn => exact part_of_chars (@Reads.chars _ true _ i n hn)
  | stop => exact ⟨[], part_self _ _, nofun⟩
  | again hp hrest ihp ihrest =>
    obtain ⟨parts, hparts, htakes⟩ := ihrest
    refine ⟨_ :: parts, ?_, List.forall_mem_cons.mpr ⟨ihp, htakes⟩⟩
    rw [List.flatten_cons, ← hparts, part_append hp.le hrest.le]
  | group _ _ ih => exact ih

/-! ## Finding what is taken -/

/-- The pattern asks nothing of what stands around the text that it takes, and has no repetitions
but runs of characters. -/
def plain : Pattern → Bool
  | empty | set _ | chars _ _ => true
  | seq p q | alt p q => p.plain && q.plain
  | group _ p => p.plain
  | _ => false

/-- The pattern asks for a boundary at the start of the text that it takes, and for no more. -/
def bounded : Pattern → Bool
  | boundary => true
  | seq p q => p.bounded && q.plain
  | _ => false

theorem isSome_latest? {m : Matcher} {i k : Nat} (hrun : (m.run (i + k)).isSome) :
    ∀ {n : Nat}, k < n → (m.latest? i n).isSome
  | n + 1, hk => by
    rw [Matcher.latest?]
    cases h : m.run (i + n) with
    | some e => rfl
    | none =>
      have hne : k ≠ n := by
        rintro rfl
        rw [h] at hrun
        cases hrun
      exact isSome_latest? hrun (by omega)

theorem isSome_earliest? {m : Matcher} : ∀ {n i k : Nat}, (m.run (i + k)).isSome → k < n →
    (m.earliest? i n).isSome
  | n + 1, i, k, hrun, hk => by
    rw [Matcher.earliest?]
    cases h : m.run i with
    | some e => rfl
    | none =>
      cases k with
      | zero =>
        rw [Nat.add_zero, h] at hrun
        cases hrun
      | succ k =>
        exact isSome_earliest? (by rwa [Nat.add_assoc, Nat.add_comm 1]) (by omega)

/-- A search finds a match wherever the pattern takes the text and what follows succeeds. -/
theorem run_of_takes : ∀ {p : Pattern} {u front back : List Char} {next : Matcher},
    p.plain = true → p.Takes u → text = front ++ u ++ back →
      (next.run (front ++ u).length).isSome → ((p.on (.of text) next).run front.length).isSome
  | .empty, u, front, back, next, _, hu, htext, hnext => by
    obtain rfl : u = [] := hu
    rwa [List.append_nil] at hnext
  | .set p, u, front, back, next, _, ⟨c, hu, hc⟩, htext, hnext => by
    subst hu htext
    rw [List.length_append] at hnext
    simpa [run_set, hc] using hnext
  | .seq p q, u, front, back, next, hpq, ⟨v, w, hu, hv, hw⟩, htext, hnext => by
    rw [plain, Bool.and_eq_true] at hpq
    subst hu
    have hrest := run_of_takes hpq.2 hw (show text = front ++ v ++ w ++ back by rw [htext]; simp)
      (by rwa [List.append_assoc])
    show ((p.on (.of text) (q.on (.of text) next)).run front.length).isSome
    exact run_of_takes hpq.1 hv (show text = front ++ v ++ (w ++ back) by rw [htext]; simp) hrest
  | .alt p q, u, front, back, next, hpq, hu, htext, hnext => by
    rw [plain, Bool.and_eq_true] at hpq
    simp only [Pattern.on]
    split
    · rfl
    · next hleft =>
      refine hu.elim (fun hu => ?_) fun hu => run_of_takes hpq.2 hu htext hnext
      have hrun := run_of_takes hpq.1 hu htext hnext
      rw [hleft] at hrun
      cases hrun
  | .chars greedy p, u, front, back, next, _, hu, htext, hnext => by
    have hlong : u.length < ((text.drop front.length).takeWhile p).length + 1 := by
      rw [htext, List.append_assoc, List.drop_left,
        List.takeWhile_append_of_pos (List.all_eq_true.mp hu), List.length_append]
      omega
    rw [List.length_append] at hnext
    simp only [Pattern.on, Matcher.outcome_row, Subject.size_of, Subject.runLength_of]
    split
    · exact isSome_latest? hnext hlong
    · exact isSome_earliest? hnext hlong
  | .group k p, u, front, back, next, hp, hu, htext, hnext => by
    simp only [Pattern.on, Option.isSome_map]
    exact run_of_takes hp hu htext (by rwa [Option.isSome_map])

/-- If the pattern asks for a boundary, a match is found after one. -/
theorem run_of_takes_bounded : ∀ {p : Pattern} {u front back : List Char} {next : Matcher},
    p.bounded = true → p.Takes u → text = front ++ u ++ back →
      (Subject.of text).atBoundary front.length = true →
      (next.run (front ++ u).length).isSome → ((p.on (.of text) next).run front.length).isSome
  | .boundary, u, front, back, next, _, hu, _, hbound, hnext => by
    obtain rfl : u = [] := hu
    rw [List.append_nil] at hnext
    simpa only [Pattern.on, hbound, if_true] using hnext
  | .seq p q, u, front, back, next, hpq, ⟨v, w, hu, hv, hw⟩, htext, hbound, hnext => by
    rw [bounded, Bool.and_eq_true] at hpq
    subst hu
    have hrest := run_of_takes hpq.2 hw (show text = front ++ v ++ w ++ back by rw [htext]; simp)
      (by rwa [List.append_assoc])
    show ((p.on (.of text) (q.on (.of text) next)).run front.length).isSome
    exact run_of_takes_bounded hpq.1 hv
      (show text = front ++ v ++ (w ++ back) by rw [htext]; simp) hbound hrest

theorem Reads.atBoundary : ∀ {p : Pattern} {s : Subject} {i j : Nat} {ms : List Mark},
    p.bounded = true → Reads s p i j ms → s.atBoundary i = true
  | .boundary, _, _, _, _, _, .boundary h => h
  | .seq _ _, _, _, _, _, hpq, .seq hp _ => by
    rw [bounded, Bool.and_eq_true] at hpq
    exact hp.atBoundary hpq.1

end Mend.Pattern
