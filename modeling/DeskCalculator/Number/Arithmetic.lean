import DeskCalculator.Number.Bits

/-!
# Arithmetic on doubles

The four basic operations and the square root are computed exactly and rounded once, as the
standard for floating-point arithmetic asks. Only the power function is left to the machine.
-/
namespace DeskCalculator

namespace FiniteDouble

/-- The sum, rounded to nearest. An exact zero is positive unless both operands are negative. -/
def add (x y : FiniteDouble) : Double :=
  let sum := x.value + y.value
  if sum = 0 then .finite (.zero (x.negative && y.negative))
  else .nearest (decide (sum < 0)) sum.abs

def sub (x y : FiniteDouble) : Double := x.add y.negate

/-- The product, rounded to nearest; negative when exactly one operand is. -/
def mul (x y : FiniteDouble) : Double :=
  .nearest (x.negative ^^ y.negative) (x.magnitude * y.magnitude)

/-- The quotient by a divisor other than zero, rounded to nearest. -/
def div (x y : FiniteDouble) : Double :=
  .nearest (x.negative ^^ y.negative) (x.magnitude / y.magnitude)

/-- The square root of a magnitude, rounded to nearest. The mantissa is scaled to at least 108
bits, so its integer root has at least two bits more than a double; a last bit that records
whether the root is exact then decides every rounding as the exact root would. -/
def sqrtMagnitude (x : FiniteDouble) : Double :=
  let halfExponent := (x.exponent - 108) / 2
  let scaled := x.mantissa * Nat.pow 2 (x.exponent - 2 * halfExponent).toNat
  let root := Nat.sqrt scaled
  let inexact := if root * root = scaled then 0 else 1
  .nearest false (((2 * root + inexact : Nat) : Rat) * (2 : Rat) ^ (halfExponent - 1))

/-- The power, as the machine computes it. -/
def pow (x y : FiniteDouble) : Double :=
  .ofFloat (Float.pow (Double.finite x).toFloat (Double.finite y).toFloat)

end FiniteDouble

namespace Double

/-- The square root: a zero and positive infinity are their own roots, a negative number has
none. -/
def sqrt : Double → Double
  | .nan => .nan
  | .infinite negative => if negative then .nan else .infinite false
  | .finite x =>
    if x.isZero then .finite x
    else if x.negative then .nan
    else x.sqrtMagnitude

end Double

end DeskCalculator
