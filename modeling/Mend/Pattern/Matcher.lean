import Mend.Memo

/-!
# Ways to match

A way to match says, for each place of a text, how the match ends that starts there (`Matcher`).
Places are numbers of characters. What follows a repetition is asked at most once at each place
(`Matcher.shared`), and a row of places is walked through in blocks whose outcome is remembered
(`Matcher.row`), so that the time does not grow with the number of ways to divide a text among
several repetitions. Neither changes an outcome: `Matcher.run_shared`, `Matcher.outcome_row`.
-/

namespace Mend

/-- Where a group opens or closes. -/
inductive Mark where
  | opened (group place : Nat)
  | closed (group place : Nat)
  deriving Repr, DecidableEq

namespace Mark

/-- The place of the mark, if it opens the group. -/
def opened? (group : Nat) : Mark → Option Nat
  | opened g place => if g = group then some place else none
  | closed _ _ => none

/-- The place of the mark, if it closes the group. -/
def closed? (group : Nat) : Mark → Option Nat
  | closed g place => if g = group then some place else none
  | opened _ _ => none

/-- The mark with its place put through `f`. -/
def mapPlace (f : Nat → Nat) : Mark → Mark
  | opened group place => opened group (f place)
  | closed group place => closed group (f place)

end Mark

/-- How a match ends: its last place, and the marks on the way there in the order of the text. -/
structure Ending where
  stop : Nat
  marks : List Mark := []
  deriving Repr, DecidableEq

/-- The ending with one more mark in front. -/
def Ending.marked (mark : Mark) (e : Ending) : Ending := { e with marks := mark :: e.marks }

/-- A way to match: how the match ends that starts at a place. A light one is settled in a few
steps wherever it is tried. -/
structure Matcher where
  light : Bool
  run : Nat → Option Ending

namespace Matcher

/-- The match that is done. -/
def done : Matcher := ⟨true, fun i => some ⟨i, []⟩⟩

/-- The same way to match, tried at most once at each place of a text. -/
def shared (size : Nat) (m : Matcher) : Matcher :=
  if m.light then m
  else
    let memo := Memo.of size m.run
    ⟨false, fun i => memo.get m.run i⟩

@[simp]
theorem run_shared (size : Nat) (m : Matcher) : (m.shared size).run = m.run := by
  unfold shared
  split
  · rfl
  · funext i
    exact Memo.get_of size m.run i

/-! ## Several places

A repetition tries what follows it at a row of places, the last or the first of them first. In
blocks of places at fixed boundaries the outcome is remembered, so that a long row is not walked
through each time. -/

/-- The outcome at the last of the `n` places from `i` on where the match succeeds. -/
def latest? (m : Matcher) (i : Nat) : Nat → Option Ending
  | 0 => none
  | n + 1 => m.run (i + n) <|> m.latest? i n

/-- The outcome at the first of the `n` places from `i` on where the match succeeds. -/
def earliest? (m : Matcher) (i : Nat) : Nat → Option Ending
  | 0 => none
  | n + 1 => m.run i <|> m.earliest? (i + 1) n

/-- How many places a block has. -/
def blockSize : Nat := 64

/-- `latest?` with the outcomes of whole blocks at hand. -/
def latestBy (m : Matcher) (blocks : Nat → Option Ending) (i n : Nat) : Option Ending :=
  if n = 0 then none
  else if blockSize ≤ n ∧ (i + n) % blockSize = 0 then
    blocks ((i + n) / blockSize - 1) <|> m.latestBy blocks i (n - blockSize)
  else m.run (i + (n - 1)) <|> m.latestBy blocks i (n - 1)
termination_by n
decreasing_by all_goals simp only [blockSize] at *; omega

/-- `earliest?` with the outcomes of whole blocks at hand. -/
def earliestBy (m : Matcher) (blocks : Nat → Option Ending) (i n : Nat) : Option Ending :=
  if n = 0 then none
  else if blockSize ≤ n ∧ i % blockSize = 0 then
    blocks (i / blockSize) <|> m.earliestBy blocks (i + blockSize) (n - blockSize)
  else m.run i <|> m.earliestBy blocks (i + 1) (n - 1)
termination_by n
decreasing_by all_goals simp only [blockSize] at *; omega

theorem latest?_add (m : Matcher) (i a b : Nat) :
    m.latest? i (a + b) = (m.latest? (i + a) b <|> m.latest? i a) := by
  induction b with
  | zero => simp [latest?]
  | succ b ih => simp [latest?, ← Nat.add_assoc, ih, Option.or_assoc]

theorem earliest?_add (m : Matcher) (i a b : Nat) :
    m.earliest? i (a + b) = (m.earliest? i a <|> m.earliest? (i + a) b) := by
  induction a generalizing i with
  | zero => simp [earliest?]
  | succ a ih =>
    have front : a + 1 + b = a + b + 1 := by omega
    have place : i + 1 + a = i + (a + 1) := by omega
    simp [front, earliest?, ih, Option.or_assoc, place]

theorem latestBy_eq (m : Matcher) (blocks : Nat → Option Ending)
    (h : ∀ c, blocks c = m.latest? (blockSize * c) blockSize) (i n : Nat) :
    m.latestBy blocks i n = m.latest? i n := by
  fun_induction latestBy m blocks i n with
  | case1 => simp [latest?]
  | case2 n _ whole ih =>
    have split : n - blockSize + blockSize = n := by omega
    have place : blockSize * ((i + n) / blockSize - 1) = i + (n - blockSize) := by
      have := Nat.div_add_mod (i + n) blockSize
      simp only [blockSize] at *
      omega
    rw [ih, h, place, ← latest?_add, split]
  | case3 n positive _ ih =>
    obtain ⟨n, rfl⟩ := Nat.exists_eq_add_one_of_ne_zero positive
    rw [Nat.add_sub_cancel] at ih ⊢
    rw [ih, latest?]

theorem earliestBy_eq (m : Matcher) (blocks : Nat → Option Ending)
    (h : ∀ c, blocks c = m.earliest? (blockSize * c) blockSize) (i n : Nat) :
    m.earliestBy blocks i n = m.earliest? i n := by
  fun_induction earliestBy m blocks i n with
  | case1 => simp [earliest?]
  | case2 i n _ whole ih =>
    have split : blockSize + (n - blockSize) = n := by omega
    have place : blockSize * (i / blockSize) = i := by
      have := Nat.div_add_mod i blockSize
      omega
    rw [ih, h, place, ← earliest?_add, split]
  | case3 i n positive _ ih =>
    obtain ⟨n, rfl⟩ := Nat.exists_eq_add_one_of_ne_zero positive
    rw [Nat.add_sub_cancel] at ih ⊢
    rw [ih, earliest?]

/-- The outcome of a whole block: at the last of its places where the match succeeds or, if the
repetition is not greedy, at the first. -/
def block (greedy : Bool) (m : Matcher) (c : Nat) : Option Ending :=
  if greedy then m.latest? (blockSize * c) blockSize else m.earliest? (blockSize * c) blockSize

/-- What follows a repetition, made ready to be tried at rows of places. -/
structure Row where
  greedy : Bool
  next : Matcher
  blocks : Memo (Option Ending)

/-- Make ready what follows a repetition in a text of a size. -/
def row (greedy : Bool) (size : Nat) (m : Matcher) : Row :=
  let next := m.shared size
  ⟨greedy, next, Memo.of (size / blockSize) (block greedy next)⟩

/-- The outcome at the last of the `n` places from `i` on where the match succeeds or, if the
repetition is not greedy, at the first. -/
def Row.outcome (r : Row) (i n : Nat) : Option Ending :=
  let blocks := r.blocks.get (block r.greedy r.next)
  if r.greedy then r.next.latestBy blocks i n else r.next.earliestBy blocks i n

theorem latest?_congr {m m' : Matcher} (h : m.run = m'.run) : m.latest? = m'.latest? := by
  funext i n
  induction n with
  | zero => rfl
  | succ n ih => simp [latest?, h, ih]

theorem earliest?_congr {m m' : Matcher} (h : m.run = m'.run) : m.earliest? = m'.earliest? := by
  funext i n
  induction n generalizing i with
  | zero => rfl
  | succ n ih => simp [earliest?, h, ih]

theorem outcome_row (greedy : Bool) (size : Nat) (m : Matcher) :
    (m.row greedy size).outcome = if greedy then m.latest? else m.earliest? := by
  rw [← latest?_congr (m.run_shared size), ← earliest?_congr (m.run_shared size)]
  funext i n
  unfold Row.outcome row
  cases greedy
  · have := earliestBy_eq (m.shared size)
      ((Memo.of (size / blockSize) (block false (m.shared size))).get
        (block false (m.shared size))) (fun c => Memo.get_of _ _ c) i n
    simp [this]
  · have := latestBy_eq (m.shared size)
      ((Memo.of (size / blockSize) (block true (m.shared size))).get
        (block true (m.shared size))) (fun c => Memo.get_of _ _ c) i n
    simp [this]

/-- Repeat `step` at most as often as the number says, each time getting ahead, and go on with
`next`. -/
def loop (greedy : Bool) (step : Matcher → Matcher) (next : Matcher) : Nat → Nat → Option Ending
  | 0, i => next.run i
  | fuel + 1, i =>
    let again (_ : Unit) :=
      (step ⟨false, fun j => if i < j then loop greedy step next fuel j else none⟩).run i
    if greedy then
      match again () with
      | some e => some e
      | none => next.run i
    else
      match next.run i with
      | some e => some e
      | none => again ()

/-- The leftmost of `n` places from `i` on where the match succeeds, and how it ends there. -/
def leftmost? (m : Matcher) : Nat → Nat → Option (Nat × Ending)
  | 0, _ => none
  | n + 1, i =>
    match m.run i with
    | some e => some (i, e)
    | none => m.leftmost? n (i + 1)

/-- The matches in a text of a size from a place on, left to right and without overlaps. An empty
match right after another match does not count: the search goes on one character further. -/
def all (m : Matcher) (size : Nat) : Nat → Option Nat → Nat → List (Nat × Ending)
  | 0, _, _ => []
  | fuel + 1, previous, i =>
    match m.leftmost? (size + 1 - i) i with
    | none => []
    | some (start, e) =>
      if start = e.stop ∧ previous = some e.stop then m.all size fuel none (i + 1)
      else (start, e) :: m.all size fuel (some e.stop) e.stop

end Matcher

end Mend
