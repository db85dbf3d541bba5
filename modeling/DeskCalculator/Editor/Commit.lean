import DeskCalculator.Editor.Line

/-!
# Committing a line

A commit evaluates the line strictly. A finite result takes the place of the expression, so that
one can go on calculating with it; a result that is no finite number clears the line; after a
fault the expression stays, to be corrected.
-/
namespace DeskCalculator

/-- What a commit shows, and what of it may be copied. -/
structure Outcome where
  expression : List Char
  result : List Char
  copyable : Option (List Char)
deriving DecidableEq

namespace Line

def settle (line : Line) (evaluation : Evaluation) : Line :=
  let committed := some evaluation.display
  match evaluation with
  | .ok (.finite x) => { ofText (Display.number x) with committed }
  | .ok _ => { empty with committed }
  | .error _ => { line with committed }

/-- The line after a commit and what the commit shows; an empty line has nothing to commit. -/
def commit (line : Line) : Line × Option Outcome :=
  if line.text = [] then (line, none)
  else
    let evaluation := evaluate line.text
    let settled := line.settle evaluation
    (settled, some ⟨settled.expression, evaluation.display, evaluation.copyable?⟩)

end Line

end DeskCalculator
