/-!
# Counts of 64 bits

Lines, bytes and the numbers of a configuration are counted in 64 bits. A sum or a product that
needs more keeps its low 64 bits. A program that is built to check its sums stops there instead, so
that it never gets past one that wraps.
-/

namespace Mend.Count

/-- How many counts there are. -/
def modulus : Nat := 18446744073709551616

/-- What a count keeps of a sum or a product. -/
def wrapped (n : Nat) : Nat := n % modulus

theorem wrapped_of_lt {n : Nat} (h : n < modulus) : wrapped n = n := Nat.mod_eq_of_lt h

end Mend.Count
