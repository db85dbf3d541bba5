import DeskCalculator.Number.Shortest

/-!
# How a result is shown

A result is shown as a number or as one of three labels. A number is rounded to twelve significant
digits and written without an exponent where that leaves it from a millionth up to below a
million million; otherwise it is rounded to ten digits and written with an exponent. Either way the
rounded decimal becomes a double first, and its shortest decimal is what is written, so trailing
zeros never appear.
-/
namespace DeskCalculator

namespace Display

def indeterminate : List Char := "Indéterminé".toList

def infinity : List Char := "∞".toList

def negativeInfinity : List Char := "-∞".toList

def error : List Char := "Erreur".toList

/-- Whether a shown result is a label of a value that is no finite number. -/
def isSentinel (text : List Char) : Bool :=
  decide (text = indeterminate ∨ text = infinity ∨ text = negativeInfinity)

def upperLimit : Rat := 1000000000000

/-- The double nearest to a millionth; magnitudes below it are written with an exponent. -/
def lowerLimit : FiniteDouble := ⟨false, 4722366482869645, -72, by decide⟩

def needsExponent : Double → Bool
  | .finite x => decide (upperLimit ≤ x.magnitude ∨ x.magnitude < lowerLimit.magnitude)
  | _ => true

/-- A double rounded to so many significant digits and taken back to a double. -/
def rounded (digits : Nat) (x : FiniteDouble) : Double :=
  (Decimal.nearest digits x.magnitude).toDouble x.negative

/-- The text of a rounded double in a given form of its shortest decimal. An infinity, which a
finite result becomes only by rounding beyond the largest double, is spelt out. -/
def written (form : Decimal → List Char) : Double → List Char
  | .nan => indeterminate
  | .infinite negative => if negative then "-inf".toList else "inf".toList
  | .finite x => if x.negative then '-' :: form x.shortest else form x.shortest

def number (x : FiniteDouble) : List Char :=
  let plain := rounded 12 x
  if x.isZero then ['0']
  else if !needsExponent plain then written Decimal.positional plain
  else
    let short := rounded 10 x
    if needsExponent short then written Decimal.scientific short
    else written Decimal.positional short

end Display

def Double.display : Double → List Char
  | .nan => Display.indeterminate
  | .infinite negative => if negative then Display.negativeInfinity else Display.infinity
  | .finite x => Display.number x

end DeskCalculator
