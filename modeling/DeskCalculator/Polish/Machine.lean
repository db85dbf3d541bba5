import DeskCalculator.Fault
import DeskCalculator.Number.Arithmetic
import DeskCalculator.Number.Numeral
import DeskCalculator.Token

/-!
# The stack machine

Runs tokens in reverse Polish order on a stack of numbers. What the numbers are is an `Arithmetic`;
the calculator's is that of doubles. There an operand that is not finite makes every binary
operation indeterminate, so infinities do not follow the usual arithmetic, and a divisor close to
zero counts as zero.
-/
namespace DeskCalculator

/-- What a machine computes with: the numbers that literals denote, and the operations on them. -/
class Arithmetic (α : Type) where
  literal? : List Char → Option α
  root : α → α
  binary : BinaryOperator → α → α → α

namespace FiniteDouble

/-- Magnitudes below this count as zero in a division: the distance from one to the next
double. -/
def negligible : Rat := 1 / leadingUnit

/-- The quotient. By a negligible divisor it is an infinity with the dividend's sign, or
indeterminate if the dividend is negligible too. -/
def quotient (x y : FiniteDouble) : Double :=
  if y.magnitude < negligible then
    if x.magnitude < negligible then .nan else .infinite x.negative
  else x.div y

end FiniteDouble

namespace BinaryOperator

def onFinite (op : BinaryOperator) (x y : FiniteDouble) : Double :=
  match op with
  | .add => x.add y
  | .sub => x.sub y
  | .mul => x.mul y
  | .div => x.quotient y
  | .pow => x.pow y

/-- The result of an operator; indeterminate unless both operands are finite. -/
def apply (op : BinaryOperator) : Double → Double → Double
  | .finite x, .finite y => op.onFinite x y
  | _, _ => .nan

end BinaryOperator

instance : Arithmetic Double := ⟨Double.ofNumeral?, Double.sqrt, BinaryOperator.apply⟩

namespace Machine

variable {α : Type} [Arithmetic α]

/-- Runs one token. The top of the stack comes first, so the right operand does. -/
def step (stack : List α) : Token → Except Fault (List α)
  | .literal text =>
    match Arithmetic.literal? text with
    | some x => .ok (x :: stack)
    | none => .error (.malformedNumber text)
  | .operator .root =>
    match stack with
    | x :: rest => .ok (Arithmetic.root x :: rest)
    | [] => .error (.missingOperand .root)
  | .operator (.binary op) =>
    match stack with
    | right :: left :: rest => .ok (Arithmetic.binary op left right :: rest)
    | _ => .error (.missingOperand (.binary op))
  | .opening | .closing => .error .parenthesis

def runFrom (stack : List α) : List Token → Except Fault (List α)
  | [] => .ok stack
  | token :: rest => (step stack token).bind fun next => runFrom next rest

/-- The one value that tokens in reverse Polish order leave behind. -/
def run (tokens : List Token) : Except Fault α :=
  (runFrom [] tokens).bind fun
    | [value] => .ok value
    | stack => .error (.valuesLeft stack.length)

end Machine

end DeskCalculator
