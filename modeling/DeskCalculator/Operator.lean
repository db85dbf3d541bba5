/-!
# Operators

Five binary operators and the square root, which stands before its operand. Precedence and
associativity are what decides where parentheses may be left out.
-/
namespace DeskCalculator

inductive BinaryOperator where
  | add
  | sub
  | mul
  | div
  | pow
deriving DecidableEq

inductive Operator where
  | binary (op : BinaryOperator)
  | root
deriving DecidableEq

namespace BinaryOperator

def symbol : BinaryOperator → Char
  | .add => '+'
  | .sub => '-'
  | .mul => '*'
  | .div => '/'
  | .pow => '^'

def ofChar? (c : Char) : Option BinaryOperator :=
  if c = '+' then some .add
  else if c = '-' then some .sub
  else if c = '*' then some .mul
  else if c = '/' then some .div
  else if c = '^' then some .pow
  else none

theorem ofChar?_symbol (op : BinaryOperator) : ofChar? op.symbol = some op := by
  cases op <;> rfl

theorem symbol_of_ofChar? {c : Char} {op : BinaryOperator} (h : ofChar? c = some op) :
    op.symbol = c := by
  grind [ofChar?, BinaryOperator.symbol]

end BinaryOperator

namespace Operator

def symbol : Operator → Char
  | .binary op => op.symbol
  | .root => '√'

def ofChar? (c : Char) : Option Operator :=
  if c = '√' then some .root else (BinaryOperator.ofChar? c).map .binary

/-- Whether the operator takes a single operand, the one that follows it. -/
def isUnary : Operator → Bool
  | .binary _ => false
  | .root => true

def precedence : Operator → Nat
  | .binary .add | .binary .sub => 1
  | .binary .mul | .binary .div => 2
  | .binary .pow => 3
  | .root => 4

def isRightAssociative : Operator → Bool
  | .binary .pow | .root => true
  | _ => false

theorem ofChar?_symbol (op : Operator) : ofChar? op.symbol = some op := by
  rcases op with op | _
  · cases op <;> rfl
  · rfl

theorem symbol_of_ofChar? {c : Char} {op : Operator} (h : ofChar? c = some op) :
    op.symbol = c := by
  unfold ofChar? at h
  split at h
  · next root =>
    cases h
    exact root.symm
  · obtain ⟨binary, symbol, rfl⟩ := Option.map_eq_some_iff.mp h
    exact BinaryOperator.symbol_of_ofChar? symbol

end Operator

end DeskCalculator
