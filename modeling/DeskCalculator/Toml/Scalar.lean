import DeskCalculator.Number.Numeral
import DeskCalculator.Toml.Table

/-!
# TOML scalars

Numbers and truth values are told apart by their spelling alone: what has neither a fraction nor an
exponent is an integer, however large. An integer has 128 bits, with or without a sign, and a float
that no finite double is close to is refused unless it is spelt as an infinity.
-/
namespace DeskCalculator

namespace Toml

/-- Whether the character may stand in a number, a truth value or a bare key. -/
def isWordChar (c : Char) : Bool := c.isAlphanum || c == '_' || c == '-'

/-- The digits of a run in which single underscores may stand between digits. -/
def ungroup? (isDigit : Char → Bool) : List Char → Option (List Char)
  | [] => none
  | c :: rest =>
    if !isDigit c then none
    else match rest with
      | [] => some [c]
      | '_' :: more => (ungroup? isDigit more).map (c :: ·)
      | next :: more => (ungroup? isDigit (next :: more)).map (c :: ·)

def digitValue (c : Char) : Nat := if c.isDigit then c.toNat - 48 else c.toLower.toNat - 87

/-- The whole number of digits in a base, underscores allowed between them. -/
def digitsIn? (base : Nat) (text : List Char) : Option Nat :=
  let isDigit (c : Char) := (c.isDigit || c.isAlpha) && decide (digitValue c < base)
  (ungroup? isDigit text).map (·.foldl (fun n c => base * n + digitValue c) 0)

/-- The digits of a decimal whole number, which has no leading zero. -/
def wholeDigits? (text : List Char) : Option (List Char) :=
  match ungroup? Char.isDigit text with
  | some ('0' :: _ :: _) => none
  | ds => ds

/-- The least integer with a sign, the opposite of 2 to the power of 127. -/
def leastInteger : Int := -170141183460469231731687303715884105728

/-- The number of integers without a sign, 2 to the power of 128. -/
def integerCount : Int := 340282366920938463463374607431768211456

/-- An integer of 128 bits, with a sign or without. -/
def inRange? (n : Int) : Option Value :=
  if leastInteger ≤ n ∧ n < integerCount then some (.integer n) else none

def integer? : List Char → Option Value
  | '0' :: 'x' :: ds => (digitsIn? 16 ds).bind fun n => inRange? n
  | '0' :: 'o' :: ds => (digitsIn? 8 ds).bind fun n => inRange? n
  | '0' :: 'b' :: ds => (digitsIn? 2 ds).bind fun n => inRange? n
  | text =>
    let (negative, rest) := Numeral.splitSign text
    (wholeDigits? rest).bind fun ds =>
      let n : Int := Numeral.digitsValue ds
      inRange? (if negative then -n else n)

/-- The digits of an exponent, with its sign and mark. -/
def exponentText? : List Char → Option (List Char)
  | [] => some []
  | mark :: rest =>
    let sign := rest.takeWhile fun c => c == '+' || c == '-'
    if 1 < sign.length then none
    else (ungroup? Char.isDigit (rest.drop sign.length)).map fun ds => mark :: (sign ++ ds)

def fractionText? : List Char → Option (List Char)
  | [] => some []
  | point :: rest => (ungroup? Char.isDigit rest).map (point :: ·)

/-- The float that a text spells: a name, or digits with a fraction, an exponent or both. -/
def float? (text : List Char) : Option Value :=
  let (negative, rest) := Numeral.splitSign text
  if rest = "inf".toList then some (.float (.infinite negative))
  else if rest = "nan".toList then some (.float .nan)
  else
    let mantissa := rest.takeWhile (!Numeral.isExponentMark ·)
    let whole := mantissa.takeWhile (· != '.')
    if whole = rest then none
    else (wholeDigits? whole).bind fun ds =>
    (fractionText? (mantissa.drop whole.length)).bind fun fraction =>
    (exponentText? (rest.drop mantissa.length)).bind fun exponent =>
    (Numeral.decimal? (ds ++ fraction ++ exponent)).bind fun d =>
      match d.toDouble negative with
      | .finite x => some (.float (.finite x))
      | _ => none

def scalar? (text : List Char) : Option Value :=
  if text = "true".toList then some (.boolean true)
  else if text = "false".toList then some (.boolean false)
  else (integer? text).or (float? text)

end Toml

end DeskCalculator
