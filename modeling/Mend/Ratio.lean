import Mend.Data.Json

/-!
# Ratios

A share of a whole as a fraction of natural numbers. Ratios are compared by cross multiplication, so
nothing is rounded there. `Ratio.nearest` is where rounding is: it gives the nearest number of 53
significant bits, in which shares are measured, written and compared with a bound.
-/

namespace Mend

/-- A fraction. -/
structure Ratio where
  num : Nat
  den : Nat
  deriving Repr, DecidableEq

namespace Ratio

/-- The first ratio is at least as large as the second. -/
def atLeast (a b : Ratio) : Bool := b.num * a.den ≤ a.num * b.den

/-- The quotient of two numbers rounded to a whole number; half goes to the even neighbour. -/
def rounded (num den : Nat) : Nat :=
  let q := num / den
  let r := num % den
  if 2 * r < den then q
  else if den < 2 * r then q + 1
  else if q % 2 = 0 then q else q + 1

/-- The power of two that a positive ratio reaches: the greatest `e` with `2 ^ e` at most the
ratio. -/
def magnitude (r : Ratio) : Int :=
  let e : Int := (Nat.log2 r.num : Int) - (Nat.log2 r.den : Int)
  if r.num * Nat.pow 2 (-e).toNat < r.den * Nat.pow 2 e.toNat then e - 1 else e

/-- The nearest number of 53 significant bits, none of them below `2 ^ -1074`; half goes to the
neighbour that ends in zero. -/
def nearest (r : Ratio) : Ratio :=
  if r.num = 0 then ⟨0, 1⟩
  else
    let places := min (52 - r.magnitude) 1074
    let up := Nat.pow 2 places.toNat
    let down := Nat.pow 2 (-places).toNat
    ⟨rounded (r.num * up) (r.den * down) * down, up⟩

/-- The ratio in decimal with six places. -/
def sixPlaces (r : Ratio) : String :=
  let n := rounded (r.num * 1000000) r.den
  let digits := toString (n % 1000000)
  toString (n / 1000000) ++ "."
    ++ String.ofList (List.replicate (6 - digits.length) '0') ++ digits

/-! ## Decimal numbers

A decimal number is read in steps, each rounded: its first nineteen digits or so as a whole number,
then a multiplication or division by a power of ten. -/

/-- The quotient of two ratios. -/
def dividedBy (a b : Ratio) : Ratio := ⟨a.num * b.den, a.den * b.num⟩

/-- A power of ten. -/
def powerOfTen (k : Nat) : Ratio := nearest ⟨Nat.pow 10 k, 1⟩

/-- The greatest exponent of a power of ten that has a place of its own. -/
def greatestPower : Nat := 308

/-- Divide by ten `k` times; past the greatest power in two steps, and nothing is left after
those. -/
def shiftedDown (r : Ratio) (k : Nat) : Ratio :=
  if k ≤ greatestPower then nearest (r.dividedBy (powerOfTen k))
  else if k ≤ 2 * greatestPower then
    nearest ((nearest (r.dividedBy (powerOfTen greatestPower))).dividedBy
      (powerOfTen (k - greatestPower)))
  else ⟨0, 1⟩

/-- Multiply by ten `k` times, no more often than the greatest power says. -/
def shiftedUp (r : Ratio) (k : Nat) : Ratio :=
  nearest ⟨r.num * (powerOfTen (min k greatestPower)).num, r.den⟩

/-- The whole number of the digits after `n`, as far as it fits in 64 bits, and how many digits were
taken after the first `taken`. -/
def significand (n taken : Nat) : List Char → Nat × Nat
  | [] => (n, taken)
  | c :: cs =>
    let longer := n * 10 + (c.toNat - '0'.toNat)
    if longer ≤ Data.countLimit then significand longer (taken + 1) cs else (n, taken)

/-- The ratio of a decimal number, as data has it: digits, a fraction and an exponent of ten. A
number below zero counts as zero. -/
def ofDecimal (digits : String) : Ratio :=
  match digits.toList with
  | '-' :: _ => ⟨0, 1⟩
  | s =>
    let isExponent (c : Char) := c == 'e' || c == 'E'
    let mantissa := s.takeWhile fun c => !isExponent c
    let exponent := (s.dropWhile fun c => !isExponent c).drop 1
    let whole := mantissa.takeWhile (· != '.')
    let fraction := (mantissa.dropWhile (· != '.')).drop 1
    let (n, taken) := significand 0 0 (whole ++ fraction)
    let power : Int := match exponent with
      | '-' :: e => -(Json.decimal e : Int)
      | '+' :: e => Json.decimal e
      | e => Json.decimal e
    let shift := power + (whole.length : Int) - (taken : Int)
    if 0 ≤ shift then shiftedUp (nearest ⟨n, 1⟩) shift.toNat
    else shiftedDown (nearest ⟨n, 1⟩) (-shift).toNat

/-- Read a ratio of plain data. -/
def ofData? : Data → Option Ratio
  | .int n => some ⟨n.toNat, 1⟩
  | .real digits => some (ofDecimal digits)
  | _ => none

end Ratio

end Mend
