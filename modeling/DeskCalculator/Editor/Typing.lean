import DeskCalculator.Editor.Line

/-!
# What typing may bring into a line

Digits, points and operators are not put in blindly. A number never gets a second point, nor one
behind its exponent, and operators in front of the cursor collapse: of binary operators in a row
at most two stay, the second of them a sign.
-/
namespace DeskCalculator

/-- Whether a number cannot go on with the character. -/
def isBoundary (c : Char) : Bool :=
  (Operator.ofChar? c).isSome || c == '(' || c == ')' || isBlank c

/-- Whether the character ends a number, given the one before it: the sign of an exponent belongs
to its number. -/
def endsNumber (previous : Option Char) (c : Char) : Bool :=
  isBoundary c && !((c == '+' || c == '-') && previous.any Numeral.isExponentMark)

/-- The part of the number at the cursor that lies before it, the nearest character first. -/
def numberBefore : List Char → List Char
  | [] => []
  | c :: rest => if endsNumber rest.head? c then [] else c :: numberBefore rest

/-- The part of the number at the cursor that lies after it. -/
def numberAfter (previous : Option Char) : List Char → List Char
  | [] => []
  | c :: rest => if endsNumber previous c then [] else c :: numberAfter (some c) rest

/-- Whether a number that holds the character can take no further point. -/
def barsPoint (c : Char) : Bool := c == '.' || Numeral.isExponentMark c

def isBinarySymbol (c : Char) : Bool := (BinaryOperator.ofChar? c).isSome

namespace Line

/-- The line after a point was typed: nothing happens where the number at the cursor can take
none, and a number that starts with it gets a leading zero. -/
def typePoint (line : Line) : Line :=
  let head := numberBefore line.before
  if (head ++ numberAfter line.before.head? line.after).any barsPoint then line
  else if head = [] then line.insert ['0', '.']
  else line.insert ['.']

/-- The line after a digit or a point was typed; another character does nothing. -/
def typeDigit (line : Line) (c : Char) : Line :=
  if c.isDigit then line.insert [c]
  else if c = '.' then line.typePoint
  else line

/-- The line with an operator in place of so many characters before the cursor. -/
def replaceBefore (line : Line) (count : Nat) (op : BinaryOperator) : Line :=
  ⟨op.symbol :: line.before.drop count, line.after, none⟩

/-- The line after a binary operator was typed. Nothing but a sign may start a line. Behind another
binary operator a minus becomes a sign and any other operator takes its place; behind a sign it
takes the place of both. -/
def typeBinary (line : Line) (op : BinaryOperator) : Line :=
  match line.before with
  | [] => if op = .sub then line.replaceBefore 0 op else line
  | last :: earlier =>
    if !isBinarySymbol last then line.replaceBefore 0 op
    else if last = '-' ∧ earlier.head?.any isBinarySymbol = true then line.replaceBefore 2 op
    else if op = .sub ∧ last ≠ '-' then line.replaceBefore 0 op
    else line.replaceBefore 1 op

/-- The line after an operator was typed; a root stands before its operand and is just put in. -/
def typeOperator (line : Line) : Operator → Line
  | .root => line.insert [Operator.root.symbol]
  | .binary op => line.typeBinary op

end Line

end DeskCalculator
