import DeskCalculator.Number.Double

/-!
# Decimal numbers

A decimal is a coefficient with a power of ten. It is what a literal denotes and what a result is
rounded to before it is shown. `Decimal.positional` and `Decimal.scientific` are its two written
forms.
-/
namespace DeskCalculator

/-- The number `coefficient * 10 ^ exponent`. -/
structure Decimal where
  coefficient : Nat
  exponent : Int
deriving DecidableEq

namespace Decimal

def value (d : Decimal) : Rat := (d.coefficient : Rat) * (10 : Rat) ^ d.exponent

/-- The exponent of the last of `digits` significant digits of a positive number. -/
def lastPlace (digits : Nat) (x : Rat) : Int := floorLog 10 x - digits + 1

/-- A positive number rounded to so many significant digits; a tie goes to the even digit. -/
def nearest (digits : Nat) (x : Rat) : Decimal :=
  let place := lastPlace digits x
  ⟨(roundEven (x / (10 : Rat) ^ place)).toNat, place⟩

/-- The same number with no trailing zero in its coefficient. -/
def normalize (d : Decimal) : Decimal :=
  if d.coefficient ≠ 0 ∧ d.coefficient % 10 = 0 then
    normalize ⟨d.coefficient / 10, d.exponent + 1⟩
  else d
termination_by d.coefficient
decreasing_by omega

/-- The power of ten of the first significant digit. -/
def order (d : Decimal) : Int := d.exponent + floorLogNat 10 d.coefficient

/-- The double nearest to a decimal, with a sign. A decimal of order above 310 lies beyond every
double and one of order below -330 closer to zero than to any other, so neither power of ten is
ever computed. -/
def toDouble (negative : Bool) (d : Decimal) : Double :=
  if d.coefficient = 0 then .finite (.zero negative)
  else if 310 < d.order then .infinite negative
  else if d.order < -330 then .finite (.zero negative)
  else .nearest negative d.value

def digits (n : Nat) : List Char := Nat.toDigits 10 n

def zeros (count : Nat) : List Char := List.replicate count '0'

/-- The decimal written without an exponent: whole digits, and a point with the rest where the
exponent is negative. -/
def positional (d : Decimal) : List Char :=
  let ds := digits d.coefficient
  let whole : Int := ds.length + d.exponent
  if 0 ≤ d.exponent then ds ++ zeros d.exponent.toNat
  else if 0 < whole then ds.take whole.toNat ++ '.' :: ds.drop whole.toNat
  else '0' :: '.' :: zeros (-whole).toNat ++ ds

def signed (k : Int) : List Char := if k < 0 then '-' :: digits k.natAbs else digits k.natAbs

/-- The decimal written with one digit before the point and an exponent: `1e13`, `2.5e-7`. -/
def scientific (d : Decimal) : List Char :=
  let ds := digits d.coefficient
  let fraction := ds.drop 1
  let mantissa := if fraction = [] then ds.take 1 else ds.take 1 ++ '.' :: fraction
  mantissa ++ 'e' :: signed (d.exponent + fraction.length)

end Decimal

end DeskCalculator
