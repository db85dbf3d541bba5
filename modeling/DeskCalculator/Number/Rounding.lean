/-!
# Rounding exact numbers

Every number of this library is rounded from an exact rational. Two notions carry all of it, for
binary and for decimal grids alike: the exponent of a positive rational in a base, and the nearest
integer with ties to the even neighbour.
-/
namespace DeskCalculator

/-- The greatest `k` with `base ^ k ≤ n`, for `2 ≤ base` and `0 < n`. Squaring the base halves the
exponent, so the depth grows with the logarithm of the answer. -/
def floorLogNat (base n : Nat) : Nat :=
  if h : 2 ≤ base ∧ base ≤ n then
    let half := floorLogNat (base * base) n
    if n / Nat.pow (base * base) half < base then 2 * half else 2 * half + 1
  else 0
termination_by n + 1 - base
decreasing_by
  have grows : base * 2 ≤ base * base := Nat.mul_le_mul_left base h.1
  omega

/-- The least `k` with `n ≤ base ^ k`, for `2 ≤ base`. -/
def ceilLogNat (base n : Nat) : Nat :=
  if n ≤ 1 then 0 else floorLogNat base (n - 1) + 1

/-- The greatest integer `k` with `base ^ k ≤ x`, for `2 ≤ base` and `0 < x`. -/
def floorLog (base : Nat) (x : Rat) : Int :=
  if 1 ≤ x then floorLogNat base x.floor.toNat else -(ceilLogNat base x⁻¹.ceil.toNat : Int)

/-- The integer nearest to `x`; of two equally near the even one. -/
def roundEven (x : Rat) : Int :=
  let below := x.floor
  let excess := x - below
  if excess < 1 / 2 then below
  else if 1 / 2 < excess then below + 1
  else if below % 2 = 0 then below
  else below + 1

end DeskCalculator
