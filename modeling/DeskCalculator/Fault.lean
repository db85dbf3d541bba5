import DeskCalculator.Operator

/-!
# Why an expression has no value

The causes for which scanning or evaluation fails, and their wording.
-/
namespace DeskCalculator

inductive Fault where
  /-- A literal that denotes no number; with a second point, the literal up to that point. -/
  | malformedNumber (literal : List Char)
  | missingOperand (op : Operator)
  /-- A parenthesis where operands and operators only may stand. -/
  | parenthesis
  /-- A number of results other than one. -/
  | valuesLeft (count : Nat)
deriving DecidableEq

namespace Fault

def message : Fault → String
  | .malformedNumber literal => "malformed number: " ++ String.ofList literal
  | .missingOperand op =>
    "malformed expression: missing operand for '" ++ String.singleton op.symbol ++ "'"
  | .parenthesis => "malformed expression: parenthesis in postfix sequence"
  | .valuesLeft count =>
    "malformed expression: " ++ toString count ++ " values left on the stack"

end Fault

end DeskCalculator
