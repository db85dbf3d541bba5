import DeskCalculator.Display
import DeskCalculator.Polish.Machine
import DeskCalculator.Polish.Order
import DeskCalculator.Token.Scan

/-!
# Strict evaluation

The value of an expression as it stands, or the fault that leaves it without one, and the two
texts that come of it: what is shown and what may be copied.
-/
namespace DeskCalculator

/-- What an evaluation comes to: a value, finite or not, or a fault. -/
abbrev Evaluation := Except Fault Double

/-- The value of an expression. An empty text has the value zero; one that holds blanks only has
none. -/
def evaluate (text : List Char) : Evaluation :=
  if text = [] then .ok (.finite (.zero false))
  else (scan text).bind fun tokens => Machine.run (polish tokens)

theorem evaluate_eq {text : List Char} (some_text : text ≠ []) :
    evaluate text = (scan text).bind fun tokens => Machine.run (polish tokens) := if_neg some_text

theorem evaluate_eq_ok_iff {text : List Char} (some_text : text ≠ []) {x : Double} :
    evaluate text = .ok x ↔
      ∃ tokens, scan text = .ok tokens ∧ Machine.run (polish tokens) = .ok x := by
  rw [evaluate_eq some_text]
  cases scan text with
  | error fault => simp [Except.bind]
  | ok tokens => simp [Except.bind]

namespace Evaluation

def display : Evaluation → List Char
  | .ok value => value.display
  | .error _ => Display.error

/-- The text that may be copied: that of a finite value. -/
def copyable? : Evaluation → Option (List Char)
  | .ok (.finite x) => some (Display.number x)
  | _ => none

end Evaluation

end DeskCalculator
