import DeskCalculator.Token

/-!
# Reverse Polish order

An expression in reverse Polish order has each operator behind its operands and needs no
parentheses. Operators wait until their right operand is complete: for each parenthesis that is
still open, and for the outermost level, there is a list of waiting operators, the latest first.
A closing parenthesis without its partner releases the outermost level, and one that never comes
is made up for at the end.
-/
namespace DeskCalculator

namespace Operator

/-- Whether a waiting operator is released by an incoming one, because it binds tighter, or
equally tight where operators group from the left. -/
def yieldsTo (incoming waiting : Operator) : Bool :=
  decide (incoming.precedence < waiting.precedence) ||
    (decide (waiting.precedence = incoming.precedence) && !incoming.isRightAssociative)

end Operator

/-- The rest of an expression in reverse Polish order, where `waiting` holds the waiting operators
inside the innermost open parenthesis and `outer` those of the levels around it. -/
def polishFrom (waiting : List Operator) (outer : List (List Operator)) :
    List Token → List Token
  | [] => (waiting ++ outer.flatten).map .operator
  | .literal text :: rest => .literal text :: polishFrom waiting outer rest
  | .opening :: rest => polishFrom [] (waiting :: outer) rest
  | .closing :: rest =>
    waiting.map .operator ++ polishFrom (outer.headD []) outer.tail rest
  | .operator op :: rest =>
    (waiting.takeWhile op.yieldsTo).map .operator ++
      polishFrom (op :: waiting.dropWhile op.yieldsTo) outer rest

def polish (tokens : List Token) : List Token := polishFrom [] [] tokens

end DeskCalculator
