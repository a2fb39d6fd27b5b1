import Mend.Patch.Merge
import Mend.Proofs.Diff.Script
import Mend.Proofs.Text.Lines

/-!
# Where a fix is placed, and what it writes there

Of the places where a snippet stands, the locator takes the one nearest to the old line, the first
of two equally near (`nearest?_eq_some_iff`, `locate_eq_exact_iff`). Where the lines stand exactly
as the fix has them, replaying its edit script writes the suggested lines (`merge_self`). So where
the located lines are those that the fix replaces, they are spliced out for the suggested ones
(`patched_of_located`), and a fix whose code stands at its own line is placed there and nowhere
else, whatever the locator's settings (`locate_own`).
-/

namespace Mend.Patch

/-! ## The nearest of several numbers -/

theorem nearest?_isSome (expected : Nat) : ∀ {ns : List Nat}, ns ≠ [] →
    ∃ m, nearest? expected ns = some m
  | [], h => absurd rfl h
  | n :: ns, _ => by
    rw [nearest?]
    cases nearest? expected ns with
    | none => exact ⟨n, rfl⟩
    | some m =>
      by_cases h : distance m expected < distance n expected
      · exact ⟨m, if_pos h⟩
      · exact ⟨n, if_neg h⟩

/-- Of two numbers the first is the better one: it is nearer, or as near and not greater. -/
def Better (expected m n : Nat) : Prop :=
  distance m expected < distance n expected ∨ (distance m expected = distance n expected ∧ m ≤ n)

theorem nearest?_spec {expected : Nat} :
    ∀ {ns : List Nat}, ns.Pairwise (· < ·) → ∀ {m : Nat}, nearest? expected ns = some m →
      m ∈ ns ∧ ∀ n ∈ ns, Better expected m n
  | [], _, m, h => by simp [nearest?] at h
  | n :: ns, hns, m, h => by
    obtain ⟨hlt, hns⟩ := List.pairwise_cons.mp hns
    rw [nearest?] at h
    cases hk : nearest? expected ns with
    | none =>
      have hnil : ns = [] := by
        by_contra hne
        obtain ⟨m, hm⟩ := nearest?_isSome expected hne
        simp [hm] at hk
      rw [hk] at h
      obtain rfl := Option.some.inj h
      rw [hnil]
      exact ⟨List.mem_cons_self, fun k hk => by
        rw [List.mem_singleton.mp hk]
        exact Or.inr ⟨rfl, Nat.le_refl _⟩⟩
    | some k =>
      obtain ⟨hmem, hbest⟩ := nearest?_spec hns hk
      simp only [hk] at h
      by_cases hcloser : distance k expected < distance n expected
      · rw [if_pos hcloser] at h
        obtain rfl := Option.some.inj h
        refine ⟨List.mem_cons_of_mem _ hmem, fun j hj => ?_⟩
        rcases List.mem_cons.mp hj with rfl | hj
        · exact Or.inl hcloser
        · exact hbest j hj
      · rw [if_neg hcloser] at h
        obtain rfl := Option.some.inj h
        refine ⟨List.mem_cons_self, fun j hj => ?_⟩
        rcases List.mem_cons.mp hj with rfl | hj
        · exact Or.inr ⟨rfl, Nat.le_refl _⟩
        · have hnj := hlt j hj
          rcases hbest j hj with hb | ⟨hb, -⟩
          · exact Or.inl (by omega)
          · unfold Better
            omega

theorem better_antisymm {expected m n : Nat} (hm : Better expected m n) (hn : Better expected n m) :
    m = n := by
  unfold Better at hm hn
  omega

/-- The nearest of ascending numbers is the one that is better than all. -/
theorem nearest?_eq_some_iff (expected m : Nat) {ns : List Nat} (hns : ns.Pairwise (· < ·)) :
    nearest? expected ns = some m ↔ m ∈ ns ∧ ∀ n ∈ ns, Better expected m n := by
  constructor
  · exact nearest?_spec hns
  · rintro ⟨hmem, hbest⟩
    obtain ⟨k, hk⟩ := nearest?_isSome expected (List.ne_nil_of_mem hmem)
    obtain ⟨hkmem, hkbest⟩ := nearest?_spec hns hk
    rw [hk, better_antisymm (hkbest m hmem) (hbest k hkmem)]

/-! ## Where a snippet stands -/

/-- The snippet stands in the lines from line `start` on, blanks around its lines aside. -/
def Stands (lines snippet : List (List Char)) (start : Nat) : Prop :=
  start + snippet.length ≤ lines.length ∧ agreement lines snippet start = snippet.length

theorem agree_self (a : List Char) : agree a a = true := by
  simp [agree]

theorem agreement_self_append (snippet rest : List (List Char)) :
    (snippet.zip (snippet ++ rest)).countP (fun (a, b) => agree a b) = snippet.length := by
  induction snippet with
  | nil => rfl
  | cons a snippet ih =>
    rw [List.cons_append, List.zip_cons_cons, List.countP_cons_of_pos (a := (a, a)) (agree_self a),
      ih, List.length_cons]

/-- What a window shows has lines before it and lines after it. -/
theorem exists_append_of_take_drop {α : Type} {l m : List α} {start : Nat} (hne : m ≠ [])
    (h : (l.drop start).take m.length = m) :
    ∃ front back, front.length = start ∧ l = front ++ m ++ back := by
  have hlen := congrArg List.length h
  have hpos := List.length_pos_iff.mpr hne
  rw [List.length_take, List.length_drop] at hlen
  refine ⟨l.take start, (l.drop start).drop m.length, List.length_take_of_le (by omega), ?_⟩
  have hsplit := List.take_append_drop m.length (l.drop start)
  rw [h] at hsplit
  rw [List.append_assoc, hsplit, List.take_append_drop]

/-- Lines that are there word for word stand there. -/
theorem stands_append (front snippet back : List (List Char)) :
    Stands (front ++ snippet ++ back) snippet front.length := by
  refine ⟨by simp, ?_⟩
  rw [agreement, List.append_assoc, List.drop_left, agreement_self_append]

/-- An exact place is the best of all places where the snippet stands. -/
theorem locate_eq_exact_iff (l : Locator) {lines snippet : List (List Char)} {near start : Nat} :
    l.locate lines snippet near = .exact start ↔ snippet ≠ [] ∧ Stands lines snippet start ∧
      ∀ n, Stands lines snippet n → Better (near - 1) start n := by
  unfold Locator.locate
  by_cases hguard : (snippet.isEmpty || decide (lines.length < snippet.length)) = true
  · rw [if_pos hguard]
    constructor
    · intro h
      cases h
    · rintro ⟨hne, ⟨hle, -⟩, -⟩
      simp [hne] at hguard
      omega
  · rw [if_neg hguard]
    simp only [Bool.or_eq_true, List.isEmpty_iff, decide_eq_true_eq, not_or, Nat.not_lt] at hguard
    obtain ⟨hne, hle⟩ := hguard
    have hsorted : ((List.range (lines.length - snippet.length + 1)).filter fun start =>
        agreement lines snippet start == snippet.length).Pairwise (· < ·) :=
      List.pairwise_lt_range.filter _
    have hmem : ∀ n, n ∈ (List.range (lines.length - snippet.length + 1)).filter (fun start =>
        agreement lines snippet start == snippet.length) ↔ Stands lines snippet n := by
      intro n
      simp only [List.mem_filter, List.mem_range, beq_iff_eq, Stands]
      constructor <;> rintro ⟨h, hagree⟩ <;> exact ⟨by omega, hagree⟩
    have hiff := nearest?_eq_some_iff (near - 1) start hsorted
    simp only [hmem] at hiff
    rw [and_iff_right hne, ← hiff]
    simp only []
    generalize nearest? (near - 1) _ = found
    cases found with
    | some m => simp
    | none =>
      simp only [reduceCtorEq, iff_false]
      split
      · split <;> exact Location.noConfusion
      · exact Location.noConfusion

/-- A snippet that stands at its old line is found there. -/
theorem locate_own (l : Locator) {snippet : List (List Char)} (hne : snippet ≠ []) {near : Nat}
    {front : List (List Char)} (hnear : front.length = near - 1) (back : List (List Char)) :
    l.locate (front ++ snippet ++ back) snippet near = .exact front.length := by
  refine (locate_eq_exact_iff l).mpr ⟨hne, stands_append front snippet back, fun n _ => ?_⟩
  unfold Better distance
  omega

/-! ## What is written there -/

theorem reindent_self (indent line : List Char) : reindent indent indent line = line := by
  simp [reindent]

/-- On the lines that an edit script starts from, replaying it gives the lines that it arrives
at. -/
theorem replay_olds (indent : List Char) (rest : List (List Char)) :
    ∀ edits : List (Diff.Edit (List Char)),
      replay indent indent (Diff.olds edits ++ rest) edits = some (Diff.news edits)
  | [] => by
    rw [replay, Diff.news_nil]
  | .insert line :: edits => by
    rw [replay, Diff.olds_insert, Diff.news_insert, replay_olds indent rest edits, reindent_self,
      Option.map_some]
  | .keep line :: edits => by
    rw [Diff.olds_keep, Diff.news_keep, List.cons_append, replay, replay_olds indent rest edits,
      Option.map_some]
  | .delete line :: edits => by
    rw [Diff.olds_delete, Diff.news_delete, List.cons_append, replay, if_pos (agree_self line),
      replay_olds indent rest edits]

theorem merge_self {replaced : List (List Char)} (hne : replaced ≠ [])
    (suggested : List (List Char)) : merge replaced replaced suggested = some suggested := by
  obtain ⟨line, lines, rfl⟩ := List.exists_cons_of_ne_nil hne
  have h := replay_olds (Text.indentation line) []
    (Diff.shortest (line :: lines) suggested)
  rw [List.append_nil, Diff.olds_shortest, Diff.news_shortest] at h
  exact h

/-- A fix that is located on exactly the lines that it replaces puts its suggestion there. -/
theorem patched_of_located {locator : Locator} {content : List Char} {fix : Fix} {start : Nat}
    (language : Language)
    (hat : locator.locate ((Text.pieces content).map Text.stripTerminator)
      (Text.rows fix.replacedCode.toList) fix.line = .exact start)
    (hlines : (((Text.pieces content).map Text.stripTerminator).drop start).take
      (Text.rows fix.replacedCode.toList).length = Text.rows fix.replacedCode.toList) :
    patched locator content fix language =
      (spliceLines content start (Text.rows fix.replacedCode.toList).length
        (Text.rows fix.suggestedCode.toList), .exact) := by
  unfold patched
  simp only [hat, hlines, merge_self (Text.rows_ne_nil _)]

end Mend.Patch
