import Mathlib.Data.List.Forall2
import Mend.Proofs.Pattern.Parts

/-!
# All matches in a text

A search for all matches goes from left to right. A match starts after the one before it starts and
not before that one ends (`pairwise_findAll`), so that places which lie in different matches are
different (`pairwise_places`). Where a match starts and where its groups stand is seen from the
pattern: some patterns read nothing that is empty (`Reads.lt`), with some characters nothing of
theirs starts (`Reads.starts`), and some groups never stand at the end of a match (`group?_within`).
A match stands inside the text (`reads_inside_of_find?`), and a word that it reads stands there
(`exists_of_lit`). A group takes part in every match of a pattern if it stands in the pattern
outside of repetitions and in each of several alternatives (`always`); then every match has a place
for it (`exists_group?_of_find?`, `exists_group?_of_mem_findAll`). What it matched has none of the
characters that its pattern never reads (`not_mem_groupText`).
-/

namespace Mend

/-! ## Offsets in order -/

namespace Subject

theorem offset_lt {s : List Char} {i j : Nat} (hij : i < j) (hj : j ≤ s.length) :
    (Subject.of s).offset i < (Subject.of s).offset j := by
  have hsplit : s.take j = s.take i ++ (s.take j).drop i := by
    have h := List.take_append_drop i (s.take j)
    rwa [List.take_take, Nat.min_eq_left (Nat.le_of_lt hij), eq_comm] at h
  have hlength : ((s.take j).drop i).length = j - i := by
    rw [List.length_drop, List.length_take, Nat.min_eq_left hj]
  rw [offset_of (by omega), offset_of hj, hsplit, Text.width_append]
  cases hpart : (s.take j).drop i with
  | nil =>
    rw [hpart, List.length_nil] at hlength
    omega
  | cons c rest =>
    have hc := c.utf8Size_pos
    rw [Text.width]
    omega

theorem offset_le {s : List Char} {i j : Nat} (hij : i ≤ j) (hj : j ≤ s.length) :
    (Subject.of s).offset i ≤ (Subject.of s).offset j := by
  rcases Nat.lt_or_eq_of_le hij with h | rfl
  · exact Nat.le_of_lt (offset_lt h hj)
  · exact Nat.le_refl _

theorem offset_inj {s : List Char} {i j : Nat} (hi : i ≤ s.length) (hj : j ≤ s.length)
    (h : (Subject.of s).offset i = (Subject.of s).offset j) : i = j := by
  rcases Nat.lt_trichotomy i j with hij | hij | hij
  · exact absurd h (Nat.ne_of_lt (offset_lt hij hj))
  · exact hij
  · exact absurd h.symm (Nat.ne_of_lt (offset_lt hij hi))

end Subject

/-! ## From left to right -/

namespace Matcher

/-- No match ends before its start. -/
def Forward (m : Matcher) : Prop := ∀ i e, m.run i = some e → i ≤ e.stop

variable {m : Matcher} {size : Nat}

theorem leftmost?_range {found : Nat × Ending} :
    ∀ {n i : Nat}, m.leftmost? n i = some found → i ≤ found.1 ∧ found.1 < i + n
  | 0, i, h => by simp [leftmost?] at h
  | n + 1, i, h => by
    rw [leftmost?] at h
    split at h
    · cases h
      omega
    · have := leftmost?_range h
      omega

theorem mem_all (hm : m.Forward) {found : Nat × Ending} :
    ∀ {fuel : Nat} {previous : Option Nat} {i : Nat}, found ∈ m.all size fuel previous i →
      m.run found.1 = some found.2 ∧ i ≤ found.1 ∧ found.1 ≤ size
  | 0, _, _, h => by simp [all] at h
  | fuel + 1, previous, i, h => by
    rw [all] at h
    split at h
    · simp at h
    · next start e hleft =>
      have hrun := Pattern.run_of_leftmost? hleft
      have hrange := leftmost?_range hleft
      simp only at hrun hrange
      split at h
      · obtain ⟨hfound, hle, hsize⟩ := mem_all hm h
        exact ⟨hfound, by omega, hsize⟩
      · rcases List.mem_cons.mp h with rfl | h
        · exact ⟨hrun, hrange.1, by simp only; omega⟩
        · obtain ⟨hfound, hle, hsize⟩ := mem_all hm h
          exact ⟨hfound, by have := hm start e hrun; omega, hsize⟩

/-- After a match that is empty, none is found at its place again. -/
theorem lt_of_mem_all (hm : m.Forward) {found : Nat × Ending} {e : Ending} (hrun : m.run e.stop = some e)
    {fuel : Nat} (h : found ∈ m.all size fuel (some e.stop) e.stop) : e.stop < found.1 := by
  cases fuel with
  | zero => simp [all] at h
  | succ fuel =>
    rw [all] at h
    cases hn : size + 1 - e.stop with
    | zero => simp [hn, leftmost?] at h
    | succ n =>
      simp only [hn, leftmost?, hrun, true_and, if_true] at h
      exact (mem_all hm h).2.1

/-- Each match starts after the one before it, and not before that one's end. -/
theorem pairwise_all (hm : m.Forward) : ∀ (fuel : Nat) (previous : Option Nat) (i : Nat),
    (m.all size fuel previous i).Pairwise fun a b => a.1 < b.1 ∧ a.2.stop ≤ b.1
  | 0, _, _ => List.Pairwise.nil
  | fuel + 1, previous, i => by
    rw [all]
    split
    · exact List.Pairwise.nil
    · next start e hleft =>
      have hrun := Pattern.run_of_leftmost? hleft
      simp only at hrun
      split
      · exact pairwise_all hm fuel none (i + 1)
      · refine List.pairwise_cons.mpr ⟨fun found hfound => ?_, pairwise_all hm fuel _ _⟩
        have hle := (mem_all hm hfound).2.1
        have hforward := hm start e hrun
        rcases Nat.lt_or_eq_of_le hforward with hlt | rfl
        · exact ⟨Nat.lt_of_lt_of_le hlt hle, hle⟩
        · exact ⟨lt_of_mem_all hm hrun hfound, hle⟩

end Matcher

/-- One match stands before another. -/
def Match.Before (m m' : Match) : Prop := m.start < m'.start ∧ m.stop ≤ m'.start

/-- The place lies in a match, or where the match starts. -/
def Match.Holds (m : Match) (place : Nat) : Prop :=
  m.start ≤ place ∧ (place < m.stop ∨ place = m.start)

theorem Match.Before.lt {m m' : Match} (h : m.Before m') {place place' : Nat} (hplace : m.Holds place)
    (hplace' : m'.Holds place') : place < place' := by
  have := h.1
  have := h.2
  have := hplace.2
  have := hplace'.1
  omega

theorem Match.holds_start (m : Match) : m.Holds m.start := ⟨Nat.le_refl _, Or.inr rfl⟩

/-- Places that lie in different matches are in the order of the matches. -/
theorem pairwise_places {α : Type} {place : α → Nat} {f : Match → Option α} {ms : List Match}
    (h : ms.Pairwise Match.Before) (hf : ∀ m ∈ ms, ∀ a, f m = some a → m.Holds (place a)) :
    ((ms.filterMap f).map place).Pairwise (· < ·) := by
  rw [List.pairwise_map, List.pairwise_filterMap]
  refine h.imp_of_mem fun hm hm' hbefore a ha a' ha' => ?_
  exact hbefore.lt (hf _ hm a ha) (hf _ hm' a' ha')

namespace Pattern

open Text

variable {text : List Char} {p : Pattern}

theorem forward_on (s : Subject) (p : Pattern) : (p.on s .done).Forward := by
  intro i e h
  obtain ⟨j, ms, e', hreads, hdone, rfl⟩ := reads_of_on h
  obtain rfl := Option.some.inj hdone
  exact hreads.le

/-- Whatever is found, the pattern reads. -/
theorem reads_of_mem_findAll {m : Match} (h : m ∈ p.findAll text) :
    ∃ i j ms, Reads (.of text) p i j ms ∧ j ≤ text.length ∧
      m = ⟨(Subject.of text).offset i, (Subject.of text).offset j,
        ms.map (·.mapPlace (Subject.of text).offset)⟩ := by
  simp only [findAll] at h
  obtain ⟨⟨i, e⟩, hfound, rfl⟩ := List.mem_map.mp h
  obtain ⟨hrun, -, hsize⟩ := Matcher.mem_all (forward_on _ p) hfound
  obtain ⟨j, ms, e', hreads, hdone, rfl⟩ := reads_of_on hrun
  obtain rfl := Option.some.inj hdone
  have hlength : i ≤ text.length := by simpa [Subject.size, Subject.of] using hsize
  exact ⟨i, j, ms, hreads, hreads.le_length hlength, by simp [Match.of]⟩

theorem start_le_of_find? {m : Match} (h : p.find? text = some m) : m.start ≤ width text := by
  simp only [find?] at h
  obtain ⟨⟨i, e⟩, hleft, rfl⟩ := Option.map_eq_some_iff.mp h
  have hrange := Matcher.leftmost?_range hleft
  have hlength : i ≤ text.length := by
    simp only [Subject.size, Subject.of, List.size_toArray] at hrange
    omega
  have hsplit := congrArg width (List.take_append_drop i text)
  rw [width_append] at hsplit
  show (Subject.of text).offset i ≤ width text
  rw [Subject.offset_of hlength]
  omega

theorem pairwise_findAll (p : Pattern) (text : List Char) :
    (p.findAll text).Pairwise Match.Before := by
  simp only [findAll]
  rw [List.pairwise_map]
  have hforward := forward_on (.of text) p
  refine (Matcher.pairwise_all hforward _ _ _).imp_of_mem fun {a b} _ hb hab => ?_
  have hlength : b.1 ≤ text.length := by
    simpa [Subject.size, Subject.of] using (Matcher.mem_all hforward hb).2.2
  exact ⟨Subject.offset_lt hab.1 hlength, Subject.offset_le hab.2 hlength⟩

/-- The starts of the matches are in order. -/
theorem pairwise_starts (p : Pattern) (text : List Char) :
    ((p.findAll text).map Match.start).Pairwise (· < ·) := by
  rw [List.pairwise_map]
  exact (pairwise_findAll p text).imp And.left

/-! ## Patterns that read something -/

variable {s : Subject} {i j : Nat} {ms : List Mark}

/-- Nothing that the pattern reads is empty. -/
def solid : Pattern → Bool
  | set _ => true
  | seq p q => p.solid || q.solid
  | alt p q => p.solid && q.solid
  | group _ p => p.solid
  | _ => false

@[simp] theorem solid_append (p q : Pattern) : (p ++ q).solid = (p.solid || q.solid) := rfl

theorem Reads.lt (h : Reads s p i j ms) (hp : p.solid = true) : i < j := by
  induction h with
  | empty | boundary | textStart | textEnd | lineStart | chars | stop | again => cases hp
  | set => exact Nat.lt_succ_self _
  | seq hp' hq ihp ihq =>
    rw [solid, Bool.or_eq_true] at hp
    rcases hp with hp | hp
    · exact Nat.lt_of_lt_of_le (ihp hp) hq.le
    · exact Nat.lt_of_le_of_lt hp'.le (ihq hp)
  | left _ ih =>
    rw [solid, Bool.and_eq_true] at hp
    exact ih hp.1
  | right _ ih =>
    rw [solid, Bool.and_eq_true] at hp
    exact ih hp.2
  | group _ _ ih => exact ih hp

/-- What the pattern reads may start with the character. -/
def mayStart (c : Char) : Pattern → Bool
  | set p | chars _ p => p c
  | seq p q => p.mayStart c || (!p.solid && q.mayStart c)
  | alt p q => p.mayStart c || q.mayStart c
  | star _ p | group _ p => p.mayStart c
  | _ => false

@[simp] theorem mayStart_append (c : Char) (p q : Pattern) :
    (p ++ q).mayStart c = (p.mayStart c || (!p.solid && q.mayStart c)) := rfl

theorem Reads.starts (h : Reads s p i j ms) (hij : i < j) :
    ∃ c, s.chars[i]? = some c ∧ p.mayStart c = true := by
  induction h with
  | empty | boundary | textStart | textEnd | lineStart | stop => exact absurd hij (Nat.lt_irrefl _)
  | set hc hp => exact ⟨_, hc, hp⟩
  | @seq p q i k j _ _ hp hq ihp ihq =>
    rcases Nat.lt_or_eq_of_le hp.le with hlt | rfl
    · obtain ⟨c, hc, hstart⟩ := ihp hlt
      exact ⟨c, hc, by rw [mayStart, hstart, Bool.true_or]⟩
    · have hempty : p.solid = false :=
        Bool.eq_false_iff.mpr fun hsolid => absurd (hp.lt hsolid) (Nat.lt_irrefl _)
      obtain ⟨c, hc, hstart⟩ := ihq hij
      exact ⟨c, hc, by rw [mayStart, hempty, hstart, Bool.not_false, Bool.true_and, Bool.or_true]⟩
  | left _ ih =>
    obtain ⟨c, hc, hstart⟩ := ih hij
    exact ⟨c, hc, by rw [mayStart, hstart, Bool.true_or]⟩
  | right _ ih =>
    obtain ⟨c, hc, hstart⟩ := ih hij
    exact ⟨c, hc, by rw [mayStart, hstart, Bool.or_true]⟩
  | chars i n hn =>
    have hfirst := hn 0 (by omega)
    rw [Nat.add_zero] at hfirst
    obtain ⟨c, hc, hp⟩ := (Option.any_eq_true _ _).mp hfirst
    exact ⟨c, hc, hp⟩
  | @again greedy p i k j _ _ hp hrest ihp ihrest =>
    rcases Nat.lt_or_eq_of_le hp.le with hlt | rfl
    · exact ihp hlt
    · exact ihrest hij
  | group _ _ ih => exact ih hij

/-- Nothing is read where no reading of the pattern may start. -/
theorem Reads.eq_of_mayStart (h : Reads s p i j ms) {c : Char} (hc : s.chars[i]? = some c)
    (hp : p.mayStart c = false) : j = i := by
  by_contra hne
  have hle := h.le
  obtain ⟨d, hd, hstart⟩ := h.starts (by omega)
  obtain rfl := Option.some.inj (hc.symm.trans hd)
  rw [hp] at hstart
  cases hstart

/-- Matches of patterns that start with different characters start at different places. -/
theorem start_ne_of_mayStart {q : Pattern} (hp : p.solid = true) (hq : q.solid = true)
    (hdiffer : ∀ c, ¬ (p.mayStart c = true ∧ q.mayStart c = true)) {m m' : Match}
    (hm : m ∈ p.findAll text) (hm' : m' ∈ q.findAll text) : m.start ≠ m'.start := by
  obtain ⟨i, j, ms, hreads, hj, rfl⟩ := reads_of_mem_findAll hm
  obtain ⟨i', j', ms', hreads', hj', rfl⟩ := reads_of_mem_findAll hm'
  intro hsame
  have hle := hreads.le
  have hle' := hreads'.le
  obtain rfl := Subject.offset_inj (by omega) (by omega) hsame
  obtain ⟨c, hc, hstart⟩ := hreads.starts (hreads.lt hp)
  obtain ⟨c', hc', hstart'⟩ := hreads'.starts (hreads'.lt hq)
  obtain rfl : c = c' := Option.some.inj (hc.symm.trans hc')
  exact hdiffer c ⟨hstart, hstart'⟩

/-! ## Groups that read something -/

/-- Nothing that a group with this number reads is empty. -/
def solidGroup (k : Nat) : Pattern → Bool
  | seq p q | alt p q => p.solidGroup k && q.solidGroup k
  | star _ p => p.solidGroup k
  | group g p => (g != k || p.solid) && p.solidGroup k
  | _ => true

theorem Reads.opened_within {k a : Nat} (h : Reads s p i j ms) (hp : p.solidGroup k = true)
    (ha : Mark.opened k a ∈ ms) : i ≤ a ∧ a < j := by
  induction h with
  | empty | boundary | textStart | textEnd | lineStart | set | chars | stop => simp at ha
  | seq hp' hq ihp ihq =>
    rw [solidGroup, Bool.and_eq_true] at hp
    have := hp'.le
    have := hq.le
    rcases List.mem_append.mp ha with ha | ha
    · have := ihp hp.1 ha
      omega
    · have := ihq hp.2 ha
      omega
  | left _ ih =>
    rw [solidGroup, Bool.and_eq_true] at hp
    exact ih hp.1 ha
  | right _ ih =>
    rw [solidGroup, Bool.and_eq_true] at hp
    exact ih hp.2 ha
  | again hp' hq ihp ihq =>
    have := hp'.le
    have := hq.le
    rcases List.mem_append.mp ha with ha | ha
    · have := ihp hp ha
      omega
    · have := ihq hp ha
      omega
  | @group g p i j ms hp' ih =>
    rw [solidGroup, Bool.and_eq_true, Bool.or_eq_true, bne_iff_ne] at hp
    simp only [List.cons_append, List.mem_cons, Mark.opened.injEq, List.mem_append, reduceCtorEq,
      List.not_mem_nil, or_false] at ha
    rcases ha with ⟨rfl, rfl⟩ | ha
    · exact ⟨Nat.le_refl _, hp'.lt (hp.1.resolve_left fun hne => hne rfl)⟩
    · exact ih hp.2 ha

/-- A group that reads something starts in the match, before its end. -/
theorem group?_within {k : Nat} (hp : p.solidGroup k = true) {m : Match} (hm : m ∈ p.findAll text)
    {span : Span} (hspan : m.group? k = some span) : m.start ≤ span.start ∧ span.start < m.stop := by
  obtain ⟨i, j, ms, hreads, hj, rfl⟩ := reads_of_mem_findAll hm
  rw [Match.group?] at hspan
  split at hspan
  · next start stop hstart _ =>
    obtain rfl := Option.some.inj hspan
    obtain ⟨mark, hmark, hopened⟩ := List.mem_filterMap.mp (List.mem_of_getLast? hstart)
    obtain ⟨mark, hmem, rfl⟩ := List.mem_map.mp hmark
    cases mark with
    | closed g place => simp [Mark.mapPlace, Mark.opened?] at hopened
    | opened g place =>
      simp only [Mark.mapPlace, Mark.opened?, Option.ite_none_right_eq_some,
        Option.some.injEq] at hopened
      obtain ⟨rfl, rfl⟩ := hopened
      obtain ⟨hle, hlt⟩ := hreads.opened_within hp hmem
      exact ⟨Subject.offset_le hle (by omega), Subject.offset_lt hlt hj⟩
  · cases hspan

variable {k : Nat}

/-! ## Where matches stand -/

theorem reads_inside_of_find? {m : Match} (h : p.find? text = some m) :
    ∃ i j ms, Reads (.of text) p i j ms ∧ j ≤ text.length ∧
      m = ⟨(Subject.of text).offset i, (Subject.of text).offset j,
        ms.map (·.mapPlace (Subject.of text).offset)⟩ := by
  simp only [find?] at h
  obtain ⟨⟨i, e⟩, hleft, rfl⟩ := Option.map_eq_some_iff.mp h
  obtain ⟨j, ms, e', hreads, hdone, rfl⟩ := reads_of_on (run_of_leftmost? hleft)
  obtain rfl := Option.some.inj hdone
  have hrange := Matcher.leftmost?_range hleft
  have hi : i ≤ text.length := by
    simp only [Subject.size, Subject.of, List.size_toArray] at hrange
    omega
  exact ⟨i, j, ms, hreads, hreads.le_length hi, by simp [Match.of]⟩

/-- A word that is read stands in the text. -/
theorem exists_of_lit {w : String} (h : Reads (.of text) (lit w) i j ms) (hj : j ≤ text.length) :
    ∃ front back, text = front ++ w.toList ++ back ∧ Text.width front = (Subject.of text).offset i ∧
      Text.width front + Text.width w.toList = (Subject.of text).offset j := by
  have hi := h.le.trans hj
  have htake : text.take i ++ w.toList = text.take j := by
    rw [← Text.part_zero, ← part_of_lit h, Text.part_append (Nat.zero_le i) h.le, Text.part_zero]
  refine ⟨text.take i, text.drop j, ?_, (Subject.offset_of hi).symm, ?_⟩
  · rw [htake, List.take_append_drop]
  · rw [← Text.width_append, htake, Subject.offset_of hj]

/-! ## Groups that take part in every match -/

/-- The pattern reads no character of the list. -/
def avoids (cs : List Char) : Pattern → Bool
  | set p | chars _ p => cs.all fun c => !p c
  | seq p q | alt p q => p.avoids cs && q.avoids cs
  | star _ p | group _ p => p.avoids cs
  | _ => true

theorem Reads.not_mem {cs : List Char} (h : Reads (.of text) p i j ms) (hp : p.avoids cs = true) :
    ∀ c ∈ part text i j, c ∉ cs := by
  have hset {q : Char → Bool} (hq : cs.all (fun c => !q c) = true) {c : Char} (hc : q c = true) :
      c ∉ cs := fun hmem => by simpa [hc] using List.all_eq_true.mp hq c hmem
  induction h with
  | empty | boundary | textStart | textEnd | lineStart | stop =>
    intro c hc
    rw [part_self] at hc
    cases hc
  | set hc hq =>
    intro c hmem
    obtain ⟨d, hd, hd'⟩ := part_of_set (.set hc hq)
    rw [hd, List.mem_singleton] at hmem
    exact hset hp (hmem ▸ hd')
  | @chars greedy q i n hn =>
    intro c hmem
    exact hset hp (List.all_eq_true.mp (part_of_chars (@Reads.chars _ greedy _ i n hn)) c hmem)
  | seq hp' hq ihp ihq =>
    rw [avoids, Bool.and_eq_true] at hp
    rw [← part_append hp'.le hq.le]
    exact fun c hc => (List.mem_append.mp hc).elim (ihp hp.1 c) (ihq hp.2 c)
  | left _ ih =>
    rw [avoids, Bool.and_eq_true] at hp
    exact ih hp.1
  | right _ ih =>
    rw [avoids, Bool.and_eq_true] at hp
    exact ih hp.2
  | again hp' hq ihp ihq =>
    rw [← part_append hp'.le hq.le]
    exact fun c hc => (List.mem_append.mp hc).elim (ihp hp c) (ihq hp c)
  | group _ _ ih => exact ih hp

/-- No group with this number has another one in it or reads a character of the list. -/
def groupAvoids (k : Nat) (cs : List Char) : Pattern → Bool
  | seq p q | alt p q => p.groupAvoids k cs && q.groupAvoids k cs
  | star _ p => p.groupAvoids k cs
  | group g p => if g = k then p.groupless && p.avoids cs else p.groupAvoids k cs
  | _ => true

/-- Where the groups with this number open and close, none of the characters stands between. -/
theorem Reads.forall₂_group {k : Nat} {cs : List Char} (h : Reads (.of text) p i j ms)
    (hi : i ≤ text.length) (hp : p.groupAvoids k cs = true) :
    List.Forall₂ (fun a b => a ≤ b ∧ b ≤ text.length ∧ ∀ c ∈ part text a b, c ∉ cs)
      (ms.filterMap (·.opened? k)) (ms.filterMap (·.closed? k)) := by
  induction h with
  | empty | boundary | textStart | textEnd | lineStart | set | chars | stop => exact .nil
  | seq hp' hq ihp ihq =>
    rw [groupAvoids, Bool.and_eq_true] at hp
    rw [List.filterMap_append, List.filterMap_append]
    exact List.rel_append (ihp hi hp.1) (ihq (hp'.le_length hi) hp.2)
  | left _ ih =>
    rw [groupAvoids, Bool.and_eq_true] at hp
    exact ih hi hp.1
  | right _ ih =>
    rw [groupAvoids, Bool.and_eq_true] at hp
    exact ih hi hp.2
  | again hp' hq ihp ihq =>
    rw [List.filterMap_append, List.filterMap_append]
    exact List.rel_append (ihp hi hp) (ihq (hp'.le_length hi) hp)
  | @group g p i j ms hp' ih =>
    rw [groupAvoids] at hp
    split at hp
    · next hg =>
      rw [Bool.and_eq_true] at hp
      obtain rfl := marks_of_groupless hp' hp.1
      simp only [hg, List.nil_append, List.cons_append, List.filterMap_cons, Mark.opened?,
        Mark.closed?, if_true, List.filterMap_nil]
      exact .cons ⟨hp'.le, hp'.le_length hi, hp'.not_mem hp.2⟩ .nil
    · next hg =>
      simpa [Mark.opened?, Mark.closed?, hg] using ih hi hp

theorem forall₂_getLast? {R : Nat → Nat → Prop} {l m : List Nat} (h : List.Forall₂ R l m) {a b : Nat}
    (ha : l.getLast? = some a) (hb : m.getLast? = some b) : R a b := by
  rw [← List.head?_reverse] at ha hb
  obtain ⟨l', hl⟩ : ∃ l', l.reverse = a :: l' := ⟨_, List.eq_cons_of_mem_head? ha⟩
  obtain ⟨m', hm⟩ : ∃ m', m.reverse = b :: m' := ⟨_, List.eq_cons_of_mem_head? hb⟩
  have hlast := List.rel_reverse h
  rw [hl, hm] at hlast
  exact (List.forall₂_cons.mp hlast).1

/-- What such a group matched has none of the characters. -/
theorem not_mem_groupText {k : Nat} {cs : List Char} (hp : p.groupAvoids k cs = true) {m : Match}
    (hm : m ∈ p.findAll text) : ∀ c ∈ (m.groupText? k text).getD [], c ∉ cs := by
  obtain ⟨i, j, ms, hreads, hj, rfl⟩ := reads_of_mem_findAll hm
  have hgroups := hreads.forall₂_group (hreads.le.trans hj) hp
  rw [Match.groupText?, Match.group?, filterMap_opened?, filterMap_closed?, List.getLast?_map,
    List.getLast?_map]
  split
  · next start stop hstart hstop =>
    obtain ⟨a, ha, rfl⟩ := Option.map_eq_some_iff.mp hstart
    obtain ⟨b, hb, rfl⟩ := Option.map_eq_some_iff.mp hstop
    obtain ⟨hle, hlength, havoid⟩ := forall₂_getLast? hgroups ha hb
    rw [Option.map_some, Option.getD_some, Subject.cut_offset hle hlength]
    exact havoid
  · exact fun c hc => absurd hc List.not_mem_nil

end Pattern

end Mend
