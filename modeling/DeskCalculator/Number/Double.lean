import DeskCalculator.Number.Rounding

/-!
# Double-precision numbers

A double is not a number, an infinity, or a sign with a whole number of units `2 ^ exponent`. Each
finite double has exactly one representation, so equality of representations is equality of bits
(all forms of not-a-number counted as one). `Double.nearest` is the only way in: it rounds an exact
magnitude to the nearest double.
-/
namespace DeskCalculator

/-- The least mantissa of a normal double, `2 ^ 52`. -/
def leadingUnit : Nat := 4503599627370496

/-- The least exponent of a double; at it the mantissa may fall below `leadingUnit`. -/
def leastExponent : Int := -1074

def greatestExponent : Int := 971

/-- The one form in which a finite magnitude is held: a mantissa of exactly 53 bits, or of fewer
at the least exponent. -/
def CanonicalParts (mantissa : Nat) (exponent : Int) : Prop :=
  mantissa < 2 * leadingUnit ∧ leastExponent ≤ exponent ∧ exponent ≤ greatestExponent ∧
    (leadingUnit ≤ mantissa ∨ exponent = leastExponent)

instance (mantissa : Nat) (exponent : Int) : Decidable (CanonicalParts mantissa exponent) :=
  inferInstanceAs (Decidable (_ ∧ _))

/-- A finite double: a sign and the magnitude `mantissa * 2 ^ exponent`. -/
structure FiniteDouble where
  negative : Bool
  mantissa : Nat
  exponent : Int
  canonical : CanonicalParts mantissa exponent
deriving DecidableEq

namespace FiniteDouble

def zero (negative : Bool) : FiniteDouble := ⟨negative, 0, leastExponent, by decide⟩

def magnitude (x : FiniteDouble) : Rat := (x.mantissa : Rat) * (2 : Rat) ^ x.exponent

def value (x : FiniteDouble) : Rat := if x.negative then -x.magnitude else x.magnitude

def isZero (x : FiniteDouble) : Bool := x.mantissa == 0

def negate (x : FiniteDouble) : FiniteDouble := { x with negative := !x.negative }

end FiniteDouble

inductive Double where
  | nan
  | infinite (negative : Bool)
  | finite (x : FiniteDouble)
deriving DecidableEq

namespace Double

/-- The finite double with these parts, or an infinity where they lie beyond the last one. -/
def ofParts (negative : Bool) (mantissa : Nat) (exponent : Int) : Double :=
  if h : CanonicalParts mantissa exponent then .finite ⟨negative, mantissa, exponent, h⟩
  else .infinite negative

/-- The double nearest to a magnitude, with the given sign. Of two equally near ones the even
mantissa wins, half a unit above the largest double is already an infinity, and what is too small
becomes a zero that keeps the sign. -/
def nearest (negative : Bool) (magnitude : Rat) : Double :=
  if magnitude = 0 then .finite (.zero negative) else
  let exponent := max (floorLog 2 magnitude - 52) leastExponent
  let mantissa := (roundEven (magnitude / (2 : Rat) ^ exponent)).toNat
  if mantissa = 2 * leadingUnit then ofParts negative leadingUnit (exponent + 1)
  else ofParts negative mantissa exponent

def isFinite : Double → Bool
  | .finite _ => true
  | _ => false

end Double

end DeskCalculator
