import DeskCalculator.Editor.Commit
import DeskCalculator.Editor.Typing

/-!
# Edits

Everything that can be done to a line, and the keys that do it.
-/
namespace DeskCalculator

inductive Edit where
  | insert (text : List Char)
  | digit (c : Char)
  | operator (op : Operator)
  | backspace
  | clear
  | moveTo (position : Nat)
  | left
  | right
  | commit
deriving DecidableEq

namespace Edit

def ofChar? (c : Char) : Option Edit :=
  if c.isDigit ∨ c = '.' then some (.digit c)
  else if c = '(' ∨ c = ')' then some (.insert [c])
  else if c = '√' ∨ c = 'r' ∨ c = 'R' then some (.insert ['√'])
  else if c = '=' then some .commit
  else if c = 'c' ∨ c = 'C' then some .clear
  else if c = 'b' ∨ c = 'B' then some .backspace
  else if c = '<' then some .left
  else if c = '>' then some .right
  else (BinaryOperator.ofChar? c).map fun op => .operator (.binary op)

/-- The keys that have names, and what they do. -/
def namedKeys : List (List Char × Edit) :=
  [("Enter".toList, .commit), ("Backspace".toList, .backspace), ("Escape".toList, .clear),
    ("ArrowLeft".toList, .left), ("ArrowRight".toList, .right)]

/-- What a key does: one that has a name, or a typed character. -/
def ofKey? (name : List Char) : Option Edit :=
  match name with
  | [c] => ofChar? c
  | _ => namedKeys.lookup name

end Edit

namespace Line

def apply (line : Line) : Edit → Line × Option Outcome
  | .insert text => (line.insert text, none)
  | .digit c => (line.typeDigit c, none)
  | .operator op => (line.typeOperator op, none)
  | .backspace => (line.backspace, none)
  | .clear => (empty, none)
  | .moveTo position => (line.moveTo position, none)
  | .left => (line.moveLeft, none)
  | .right => (line.moveRight, none)
  | .commit => line.commit

/-- The line after edits in order, and the outcomes of the commits among them. -/
def applyAll (line : Line) : List Edit → Line × List Outcome
  | [] => (line, [])
  | edit :: rest =>
    let (next, outcome) := line.apply edit
    let (last, outcomes) := next.applyAll rest
    (last, outcome.toList ++ outcomes)

/-- The line after each character of a text was typed; a character that is no key does
nothing. -/
def typeText (line : Line) (text : List Char) : Line × List Outcome :=
  line.applyAll (text.filterMap Edit.ofChar?)

end Line

end DeskCalculator
