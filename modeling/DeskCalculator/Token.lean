import DeskCalculator.Operator

/-!
# Tokens

What an expression consists of: literals, operators and parentheses. A literal keeps the text that
was typed; it becomes a number when it is evaluated.
-/
namespace DeskCalculator

inductive Token where
  | literal (text : List Char)
  | operator (op : Operator)
  | opening
  | closing
deriving DecidableEq

namespace Token

/-- The token written with a single character, literals apart. -/
def ofChar? (c : Char) : Option Token :=
  if c = '(' then some .opening
  else if c = ')' then some .closing
  else (Operator.ofChar? c).map .operator

def text : Token → List Char
  | .literal text => text
  | .operator op => [op.symbol]
  | .opening => ['(']
  | .closing => [')']

def expectsOperand : Token → Bool
  | .operator _ | .opening => true
  | .literal _ | .closing => false

theorem ofChar?_symbol (op : Operator) : ofChar? op.symbol = some (.operator op) := by
  rcases op with op | _
  · cases op <;> rfl
  · rfl

/-- A token written with a single character is no literal. -/
theorem text_of_ofChar? {c : Char} {token : Token} (single : ofChar? c = some token) :
    token.text = [c] ∧ ∀ text, token ≠ .literal text := by
  unfold ofChar? at single
  split at single
  · next opening =>
    cases single
    exact ⟨by rw [text, opening], nofun⟩
  · split at single
    · next closing =>
      cases single
      exact ⟨by rw [text, closing], nofun⟩
    · obtain ⟨op, symbol, rfl⟩ := Option.map_eq_some_iff.mp single
      exact ⟨by rw [text, Operator.symbol_of_ofChar? symbol], nofun⟩

end Token

end DeskCalculator
