/-!
# The range of doubles

A double has 53 significant bits, and one that rounds to `limit` or beyond is infinite. This is
all that numbers in texts need of doubles: whether what they denote is finite.
-/

namespace BeanSynthesis.Double

/-- The least number that rounds to no finite double: half a step above the largest one. -/
def limit : Nat := Nat.pow 2 1024 - Nat.pow 2 970

/-- The natural number with at most 53 significant bits that is nearest to `n`; of two that are as
near the even one, counted in steps. -/
def nearest (n : Nat) : Nat :=
  let step := Nat.pow 2 (n.log2 - 52)
  let count := n / step
  let rest := n % step
  if rest * 2 > step || (rest * 2 = step && count % 2 = 1) then (count + 1) * step
  else count * step

/-- Whether `n * 10 ^ exponent` is finite as a double, for a number `n` whose first digit is not
zero and that has `digits` digits. Its size is decided by the position of the first digit alone,
except where it has 309 digits before the point. -/
def inRange (digits n : Nat) (exponent : Int) : Bool :=
  let whole := digits + exponent
  if whole = 309 then
    if 0 ≤ exponent then n * Nat.pow 10 exponent.toNat < limit
    else n < limit * Nat.pow 10 (-exponent).toNat
  else whole < 309

end BeanSynthesis.Double
