import DeskCalculator.Number.Decimal

/-!
# Numerals

The texts that denote a double: an optional sign before digits with at most one point and an
optional exponent, or before one of the names `inf`, `infinity` and `nan` in any case.
-/
namespace DeskCalculator

namespace Numeral

/-- Whether the text starts with a minus, and the text less its sign. -/
def splitSign : List Char → Bool × List Char
  | '-' :: rest => (true, rest)
  | '+' :: rest => (false, rest)
  | rest => (false, rest)

/-- The number that a run of digits denotes. -/
def digitsValue (ds : List Char) : Nat := Nat.ofDigitChars 10 ds 0

/-- The whole number written as an optional sign and at least one digit. -/
def exponent? (text : List Char) : Option Int :=
  let (negative, ds) := splitSign text
  if ds ≠ [] ∧ ds.all Char.isDigit then
    some (if negative then -(digitsValue ds : Int) else digitsValue ds)
  else none

def isExponentMark (c : Char) : Bool := c == 'e' || c == 'E'

/-- The decimal of a numeral without a sign. -/
def decimal? (text : List Char) : Option Decimal :=
  let whole := text.takeWhile Char.isDigit
  let (fraction, suffix) := match text.dropWhile Char.isDigit with
    | '.' :: rest => (rest.takeWhile Char.isDigit, rest.dropWhile Char.isDigit)
    | rest => ([], rest)
  let ds := whole ++ fraction
  let scaled (exponent : Int) : Decimal := ⟨digitsValue ds, exponent - fraction.length⟩
  if ds = [] then none
  else match suffix with
    | [] => some (scaled 0)
    | c :: rest => if isExponentMark c then (exponent? rest).map scaled else none

/-- The double of a name without a sign. -/
def named? (negative : Bool) (text : List Char) : Option Double :=
  let lower := text.map Char.toLower
  if lower = "inf".toList ∨ lower = "infinity".toList then some (.infinite negative)
  else if lower = "nan".toList then some .nan
  else none

end Numeral

/-- The double nearest to what a numeral denotes; `none` for a text that is no numeral. -/
def Double.ofNumeral? (text : List Char) : Option Double :=
  let (negative, rest) := Numeral.splitSign text
  match Numeral.decimal? rest with
  | some d => some (d.toDouble negative)
  | none => Numeral.named? negative rest

end DeskCalculator
