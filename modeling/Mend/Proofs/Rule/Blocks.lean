import Mend.Proofs.Checked.Context
import Mend.Proofs.Text.Position
import Mathlib.Data.List.Nodup
import Mathlib.Data.Nat.Find

/-!
# Blocks within reach

A match of an opener has its brace at its own end or first in the bytes after it, as many as the
reach allows. These bytes are searched only where they are a part of the text (`slice?_eq_some_iff`),
and then the first brace among them is the first one from the end of the match on
(`Checked.brace?_eq_some_iff`). So of a match and its block everything can be told from the masked
text (`Context.blocksAfter_within`), but a reach that ends inside a character hides the braces in it
(`Context.not_blocksAfter_within`). So does one that is too large: its end is a count, and where that
wraps it comes before the match.
-/

namespace Mend

namespace Text

variable {p : Char → Bool} {s : List Char} {lo hi n : Nat}

/-- A slice is the part of the text between two good offsets. -/
theorem slice?_eq_some_iff {mid : List Char} : slice? lo hi s = some mid ↔
    ∃ front back, s = front ++ mid ++ back ∧ width front = lo ∧ lo + width mid = hi := by
  constructor
  · intro h
    have hle : lo ≤ hi := by
      by_contra hlt
      rw [slice?, if_pos (Nat.lt_of_not_le hlt)] at h
      cases h
    obtain ⟨back, hfrom, hwidth⟩ := exists_from?_of_slice? h
    obtain ⟨front, rfl, hfront⟩ := exists_of_from? hfrom
    exact ⟨front, back, (List.append_assoc _ _ _).symm, hfront, by omega⟩
  · rintro ⟨front, back, rfl, rfl, rfl⟩
    rw [slice?, if_neg (by omega), from?_eq, List.append_assoc, splitAt?_width, Option.map_some,
      Option.bind_some, Nat.add_sub_cancel_left, splitAt?_width, Option.map_some]

/-! ## Characters of a part -/

theorem offsetsOf_go_eq_map (p : Char → Bool) : ∀ (s : List Char) (pos : Nat),
    offsetsOf.go p pos s = (offsetsOf p s).map (pos + ·)
  | [], _ => rfl
  | c :: s, pos => by
    rw [offsetsOf, offsetsOf.go, offsetsOf.go, offsetsOf_go_eq_map p s (pos + _),
      offsetsOf_go_eq_map p s (0 + _)]
    split <;> simp [Function.comp_def, Nat.add_assoc]

/-- What stands in a part of a text stands in the text, so many bytes later. -/
theorem mem_offsetsOf_part (front mid back : List Char) : n ∈ offsetsOf p mid ↔
    width front + n ∈ offsetsOf p (front ++ mid ++ back) ∧ n < width mid := by
  rw [show offsetsOf p (front ++ mid ++ back) = _ from offsetsOf_go_append p 0 _ _,
    offsetsOf_go_append, List.mem_append, List.mem_append, offsetsOf_go_eq_map p mid,
    List.mem_map]
  constructor
  · intro hn
    have hlt := LineIndex.lt_of_mem_offsetsOf_go hn
    exact ⟨.inl (.inr ⟨n, hn, by omega⟩), by omega⟩
  · rintro ⟨(hfront | ⟨k, hk, heq⟩) | hback, hlt⟩
    · have := LineIndex.lt_of_mem_offsetsOf_go hfront
      omega
    · rwa [show n = k by omega]
    · have := le_of_mem_offsetsOf_go hback
      rw [width_append] at this
      omega

/-- The offset of a character that satisfies `p`, the first one from `lo` on, and it is before
`hi`. -/
structure FirstWithin (p : Char → Bool) (s : List Char) (lo hi n : Nat) : Prop where
  stands : n ∈ offsetsOf p s
  le : lo ≤ n
  lt : n < hi
  first : ∀ k ∈ offsetsOf p s, lo ≤ k → n ≤ k

theorem find?_eq_some_iff : find? p s = some n ↔
    n ∈ offsetsOf p s ∧ ∀ k ∈ offsetsOf p s, n ≤ k := by
  have hsorted := pairwise_offsetsOf p s
  rw [find?]
  cases hs : offsetsOf p s with
  | nil => simp
  | cons o rest =>
    rw [hs] at hsorted
    have hrest := (List.pairwise_cons.mp hsorted).1
    rw [List.head?_cons, Option.some.injEq]
    constructor
    · rintro rfl
      exact ⟨List.mem_cons_self, fun k hk => (List.mem_cons.mp hk).elim (·.ge) fun h => (hrest k h).le⟩
    · rintro ⟨hmem, hfirst⟩
      have hle := hfirst o List.mem_cons_self
      rcases List.mem_cons.mp hmem with rfl | hmem
      · rfl
      · exact absurd (hrest n hmem) (Nat.not_lt.mpr hle)

/-- To search a slice is to search the text between two offsets; there is nothing between them where
the second one comes first. -/
theorem find?_slice_iff (hlo : Good s lo) :
    ((slice? lo hi s).bind fun mid => (find? p mid).map (lo + ·)) = some n ↔
      Good s hi ∧ FirstWithin p s lo hi n := by
  constructor
  · intro h
    obtain ⟨mid, hmid, h⟩ := Option.bind_eq_some_iff.mp h
    obtain ⟨k, hk, rfl⟩ := Option.map_eq_some_iff.mp h
    obtain ⟨front, back, rfl, rfl, rfl⟩ := slice?_eq_some_iff.mp hmid
    obtain ⟨hmem, hfirst⟩ := find?_eq_some_iff.mp hk
    obtain ⟨hstands, hlt⟩ := (mem_offsetsOf_part front mid back).mp hmem
    refine ⟨⟨front ++ mid, back, rfl, width_append _ _⟩, hstands, Nat.le_add_right _ _,
      Nat.add_lt_add_left hlt _, fun j hj hle => ?_⟩
    by_contra hbefore
    have hpart := (mem_offsetsOf_part (n := j - width front) front mid back).mpr
      ⟨by rwa [Nat.add_sub_cancel' hle], by omega⟩
    have := hfirst _ hpart
    omega
  · rintro ⟨hhi, h⟩
    obtain ⟨front, mid, back, rfl, rfl, rfl⟩ := exists_part hlo hhi (h.le.trans h.lt.le)
    refine Option.bind_eq_some_iff.mpr ⟨mid, slice?_eq_some_iff.mpr ⟨front, back, rfl, rfl, rfl⟩,
      Option.map_eq_some_iff.mpr ⟨n - width front, find?_eq_some_iff.mpr ⟨?_, fun k hk => ?_⟩,
        Nat.add_sub_cancel' h.le⟩⟩
    · have hle := h.le
      have hlt := h.lt
      exact (mem_offsetsOf_part front mid back).mpr
        ⟨by rw [Nat.add_sub_cancel' h.le]; exact h.stands, by omega⟩
    · have := h.first _ ((mem_offsetsOf_part front mid back).mp hk).1 (Nat.le_add_right _ _)
      omega

/-- Where there is one, there is a first one. -/
theorem exists_firstWithin (h : n ∈ offsetsOf p s) (hle : lo ≤ n) (hlt : n < hi) :
    ∃ k, FirstWithin p s lo hi k := by
  classical
  have hex : ∃ k, k ∈ offsetsOf p s ∧ lo ≤ k := ⟨n, h, hle⟩
  obtain ⟨hmem, hfrom⟩ := Nat.find_spec hex
  exact ⟨Nat.find hex, hmem, hfrom, Nat.lt_of_le_of_lt (Nat.find_min' hex ⟨h, hle⟩) hlt,
    fun k hk hk' => Nat.find_min' hex ⟨hk, hk'⟩⟩

end Text

open Text (Good FirstWithin endsWith offsetsOf matchingClose width)

variable {ctx : Context} {opener : Pattern} {reach : Nat} {m : Match}

/-- A match is told by its start. -/
theorem Pattern.eq_of_start {text : List Char} {m' : Match} (h : m ∈ opener.findAll text)
    (h' : m' ∈ opener.findAll text) (hstart : m.start = m'.start) : m = m' :=
  List.inj_on_of_nodup_map ((opener.pairwise_starts text).imp Nat.ne_of_lt) h h' hstart

namespace Context

/-- Where the reach after a match ends, as that is counted. -/
def reachEnd (ctx : Context) (reach : Nat) (m : Match) : Nat :=
  min (Count.wrapped (m.stop + reach)) (width ctx.masked)

/-- The offset of the brace that a match opens a block with: its own last character, or the first
brace within reach. -/
def OpensAt (ctx : Context) (reach : Nat) (m : Match) (opening : Nat) : Prop :=
  if endsWith (m.text ctx.masked) "\x7b" then opening + 1 = m.stop
  else FirstWithin (· == '\x7b') ctx.masked m.stop (ctx.reachEnd reach m) opening

theorem exists_opensAt_iff (hm : m ∈ opener.findAll ctx.masked) : (∃ o, ctx.OpensAt reach m o) ↔
    endsWith (m.text ctx.masked) "\x7b" ∨
      ∃ o ∈ offsetsOf (· == '\x7b') ctx.masked, m.stop ≤ o ∧ o < ctx.reachEnd reach m := by
  obtain ⟨hstart, hstop, hle⟩ := Pattern.good_of_mem_findAll hm
  by_cases hends : endsWith (m.text ctx.masked) "\x7b" = true
  · have := Checked.pos_of_endsWith hstart hstop hle hends
    simp only [OpensAt, hends, if_true, true_or, iff_true]
    exact ⟨m.stop - 1, by omega⟩
  · simp only [OpensAt, hends, Bool.false_eq_true, if_false, false_or]
    constructor
    · rintro ⟨o, h⟩
      exact ⟨o, h.stands, h.le, h.lt⟩
    · rintro ⟨o, ho, hfrom, hlt⟩
      exact Text.exists_firstWithin ho hfrom hlt

end Context

/-- The brace is found unless the reach ends inside a character. -/
theorem Checked.brace?_eq_some_iff (hm : m ∈ opener.findAll ctx.masked) {opening : Nat} :
    brace? ctx reach m = some opening ↔ ctx.OpensAt reach m opening ∧
      (endsWith (m.text ctx.masked) "\x7b" ∨ Good ctx.masked (ctx.reachEnd reach m)) := by
  obtain ⟨hstart, hstop, hle⟩ := Pattern.good_of_mem_findAll hm
  rw [brace?, Context.OpensAt]
  split
  · next hends =>
    have := pos_of_endsWith hstart hstop hle hends
    simp only [hends, true_or, and_true, Option.some.injEq]
    omega
  · next hends =>
    have hfind : ((Text.slice? m.stop (ctx.reachEnd reach m) ctx.masked).bind fun mid =>
        (Text.find? (· == '\x7b') mid).map (m.stop + ·)) = some opening ↔ _ :=
      Text.find?_slice_iff hstop
    simp only [hends, Bool.false_eq_true, false_or]
    refine Iff.trans ?_ (hfind.trans and_comm)
    rw [Context.reachEnd]
    simp only [bind, pure, Option.bind_eq_some_iff, Option.map_eq_some_iff, Option.some.injEq]

namespace Context

/-- A block has a match that starts where it does, and is the block there. -/
theorem exists_of_mem_blocksAfter {b : Block} (h : b ∈ ctx.blocksAfter opener reach) :
    ∃ m ∈ opener.findAll ctx.masked, ∃ o, Checked.brace? ctx reach m = some o ∧
      b = Checked.blockAt ctx m o := by
  rw [Checked.blocksAfter_def] at h
  obtain ⟨m, hm, hb⟩ := List.mem_filterMap.mp h
  obtain ⟨o, ho, rfl⟩ := Option.map_eq_some_iff.mp hb
  exact ⟨m, hm, o, ho, rfl⟩

theorem blockAt_spec (ctx : Context) (m : Match) (o : Nat) :
    (Checked.blockAt ctx m o).start = m.start ∧ (Checked.blockAt ctx m o).opening = o ∧
      (Checked.blockAt ctx m o).body =
        ⟨o + 1, (matchingClose ctx.masked o).getD (width ctx.masked)⟩ ∧
          (Checked.blockAt ctx m o).closed = (matchingClose ctx.masked o).isSome := by
  unfold Checked.blockAt
  cases matchingClose ctx.masked o <;> exact ⟨rfl, rfl, rfl, rfl⟩

/-- A match yields a block if it ends in a brace, or if one stands within its reach and the reach
does not end inside a character. The reach has all its bytes as long as its end can be counted. The
block opens at that brace, and its body ends at the brace that closes it or with the text. -/
theorem blocksAfter_within (ctx : Context) (opener : Pattern) (reach : Nat)
    (hm : m ∈ opener.findAll ctx.masked) :
    ((∃ b ∈ ctx.blocksAfter opener reach, b.start = m.start) ↔
      endsWith (m.text ctx.masked) "\x7b" ∨ Good ctx.masked (ctx.reachEnd reach m) ∧
        ∃ o ∈ offsetsOf (· == '\x7b') ctx.masked, m.stop ≤ o ∧ o < ctx.reachEnd reach m) ∧
    (m.stop + reach < Count.modulus →
      ctx.reachEnd reach m = min (m.stop + reach) (width ctx.masked)) ∧
    ∀ b ∈ ctx.blocksAfter opener reach, b.start = m.start →
      ctx.OpensAt reach m b.opening ∧
        b.body = ⟨b.opening + 1, (matchingClose ctx.masked b.opening).getD (width ctx.masked)⟩ ∧
          b.closed = (matchingClose ctx.masked b.opening).isSome := by
  have hyields : (∃ b ∈ ctx.blocksAfter opener reach, b.start = m.start) ↔
      ∃ o, Checked.brace? ctx reach m = some o := by
    constructor
    · rintro ⟨b, hb, hstart⟩
      obtain ⟨m', hm', o, ho, rfl⟩ := exists_of_mem_blocksAfter hb
      rw [(blockAt_spec ctx m' o).1] at hstart
      obtain rfl := Pattern.eq_of_start hm' hm hstart
      exact ⟨o, ho⟩
    · rintro ⟨o, ho⟩
      refine ⟨Checked.blockAt ctx m o, ?_, (blockAt_spec ctx m o).1⟩
      rw [Checked.blocksAfter_def]
      exact List.mem_filterMap.mpr ⟨m, hm, by rw [ho, Option.map_some]⟩
  refine ⟨?_, fun hcount => by rw [reachEnd, Count.wrapped_of_lt hcount], fun b hb hstart => ?_⟩
  · simp only [hyields, Checked.brace?_eq_some_iff hm, exists_and_right, exists_opensAt_iff hm]
    tauto
  · obtain ⟨m', hm', o, ho, rfl⟩ := exists_of_mem_blocksAfter hb
    obtain ⟨hstart', hopening, hbody, hclosed⟩ := blockAt_spec ctx m' o
    obtain rfl := Pattern.eq_of_start hm' hm (hstart'.symm.trans hstart)
    rw [hbody, hclosed, hopening]
    exact ⟨((Checked.brace?_eq_some_iff hm).mp ho).1, rfl, rfl⟩

/-- A file with a brace right after a call and a character of two bytes right after the brace. -/
def wideAfterBrace : Context where
  path := ⟨"a.ts"⟩
  source := "f(\x7bé".toList
  masked := "f(\x7bé".toList
  index := .of "f(\x7bé".toList
  platform := .web
  language := .typeScript

theorem of?_wideAfterBrace : of? ⟨"a.ts"⟩ "f(\x7bé" .web = some wideAfterBrace := by
  have hmask : Text.Mask.mask .typeScript "f(\x7bé".toList = "f(\x7bé".toList := by decide +kernel
  refine congrArg some ?_
  dsimp only [wideAfterBrace]
  rw [hmask]

/-- A reach of one byte finds the brace. -/
theorem blocksAfter_within_one : ⟨0, 2, []⟩ ∈ (Pattern.lit "f(").findAll wideAfterBrace.masked ∧
    ∃ b ∈ wideAfterBrace.blocksAfter (.lit "f(") 1, b.start = 0 := by
  have hm : ⟨0, 2, []⟩ ∈ (Pattern.lit "f(").findAll wideAfterBrace.masked := by decide +kernel
  have hgood : Good wideAfterBrace.masked (wideAfterBrace.reachEnd 1 ⟨0, 2, []⟩) :=
    ⟨"f(\x7b".toList, ['é'], rfl, rfl⟩
  exact ⟨hm, (blocksAfter_within wideAfterBrace (.lit "f(") 1 hm).1.mpr
    (.inr ⟨hgood, 2, by decide +kernel, by decide, by decide +kernel⟩)⟩

/-- A reach of two bytes ends inside the character after the brace, and the block is lost. -/
theorem not_blocksAfter_within : ¬ ∀ (path : Path) (content : String) (platform : Platform)
    (ctx : Context), of? path content platform = some ctx → ∀ (opener : Pattern) (reach : Nat),
    ∀ m ∈ opener.findAll ctx.masked,
      ((∃ b ∈ ctx.blocksAfter opener reach, b.start = m.start) ↔
        endsWith (m.text ctx.masked) "\x7b" ∨
          ∃ o ∈ offsetsOf (· == '\x7b') ctx.masked, m.stop ≤ o ∧ o < ctx.reachEnd reach m) := by
  intro h
  have hyields := h _ _ _ _ of?_wideAfterBrace (.lit "f(") 2 ⟨0, 2, []⟩ (by decide +kernel)
  obtain ⟨b, hb, -⟩ := hyields.mpr (.inr ⟨2, by decide +kernel, by decide, by decide +kernel⟩)
  have hnone : wideAfterBrace.blocksAfter (.lit "f(") 2 = [] := by decide +kernel
  rw [hnone] at hb
  exact List.not_mem_nil hb

end Context

end Mend
