import DeskCalculator.Evaluation
import DeskCalculator.Text.Blank

/-!
# The live preview

While an expression is being typed it often ends in an operator or starts with one that lacks its
left operand. The preview sets such dangling operators aside before it evaluates, and shows nothing
where there still is no value.
-/
namespace DeskCalculator

/-- What may dangle at the start: blanks and binary operators but the minus, which may be a
sign. -/
def danglesAtStart (c : Char) : Bool :=
  isBlank c || c == '+' || c == '*' || c == '/' || c == '^'

/-- What may dangle at the end: blanks, operators and opening parentheses, which all wait for
something to follow. -/
def danglesAtEnd (c : Char) : Bool :=
  danglesAtStart c || c == '-' || c == '√' || c == '('

def trimDangling (text : List Char) : List Char :=
  ((text.dropWhile danglesAtStart).reverse.dropWhile danglesAtEnd).reverse

/-- The text shown below an expression while it is being edited. -/
def preview (text : List Char) : List Char :=
  if text = [] then ['0']
  else match evaluate (trimDangling text) with
    | .ok value => value.display
    | .error _ => []

end DeskCalculator
