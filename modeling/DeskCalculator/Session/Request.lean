import DeskCalculator.Text.Blank

/-!
# What a line of input asks for

A line that starts with a colon, blanks aside, is a command; any other line is typed into the
expression as it stands.
-/
namespace DeskCalculator

inductive Request where
  | type (text : List Char)
  | quit
  | help
  | clear
  | copy
  | moveTo (position : Nat)
  | badPosition (word : List Char)
  | unknown (command : List Char)
deriving DecidableEq

namespace Request

/-- A cursor position: a number of at most 64 bits in decimal digits, with a plus or without. -/
def position? (word : List Char) : Option Nat :=
  let ds := if word.head? = some '+' then word.drop 1 else word
  let position := Nat.ofDigitChars 10 ds 0
  if ds ≠ [] ∧ ds.all Char.isDigit = true ∧ position < 18446744073709551616 then some position
  else none

/-- What a command asks for, its colon left out. Only the first two words count. -/
def ofCommand (command : List Char) : Request :=
  match words command with
  | [] => .unknown command
  | name :: arguments =>
    if name = "q".toList ∨ name = "quit".toList then .quit
    else if name = "help".toList then .help
    else if name = "clear".toList then .clear
    else if name = "copy".toList then .copy
    else if name = "cursor".toList then
      match arguments with
      | [] => .unknown command
      | word :: _ =>
        match position? word with
        | some position => .moveTo position
        | none => .badPosition word
    else .unknown command

def ofLine (line : List Char) : Request :=
  match trimBlanks line with
  | ':' :: command => ofCommand command
  | _ => .type line

end Request

end DeskCalculator
