import DeskCalculator.Editor.Commit
import DeskCalculator.Proofs.Display.Shape

/-!
# Committing twice

A finite result that has been committed evaluates to itself, so another commit changes nothing. The
exception are results so large that they are shown as an infinity: no expression has that text, and
the second commit fails.
-/
namespace DeskCalculator

open Display

variable {x y : FiniteDouble}

/-- An infinity that is spelt out is no expression. -/
theorem exists_evaluate_number_eq_error (beyond : limit < x.magnitude) :
    ∃ fault, evaluate (number x) = .error fault := by
  rw [number_eq_written (pos_of_limit_lt beyond), shown_of_limit_lt beyond, written]
  cases x.negative with
  | false => exact ⟨.valuesLeft 0, by decide +kernel⟩
  | true => exact ⟨.missingOperand (.binary .sub), by decide +kernel⟩

namespace Line

def ofResult (x : FiniteDouble) : Line := { ofText (number x) with committed := some (number x) }

theorem text_ofResult (x : FiniteDouble) : (ofResult x).text = number x := text_ofText (number x)

theorem settle_finite (line : Line) (x : FiniteDouble) :
    line.settle (.ok (.finite x)) = ofResult x := rfl

end Line

def Outcome.ofResult (x : FiniteDouble) : Outcome := ⟨number x, number x, some (number x)⟩

namespace Line

variable {line : Line}

theorem commit_of_text (some_text : line.text ≠ []) :
    line.commit = (line.settle (evaluate line.text),
      some ⟨(line.settle (evaluate line.text)).expression, (evaluate line.text).display,
        (evaluate line.text).copyable?⟩) := by
  rw [commit, if_neg some_text]

theorem commit_of_finite (some_text : line.text ≠ [])
    (result : evaluate line.text = .ok (.finite x)) :
    line.commit = (ofResult x, some (.ofResult x)) := by
  have text : (ofResult x).text ≠ [] := by
    rw [text_ofResult]
    exact number_ne_nil x
  have settled : line.settle (.ok (.finite x)) = ofResult x := rfl
  have expression : (ofResult x).expression = number x := by
    rw [Line.expression, if_neg text, text_ofResult]
  rw [commit_of_text some_text]
  simp only [result, settled, expression]
  rfl

theorem commit_of_error (some_text : line.text ≠ []) {fault : Fault}
    (result : evaluate line.text = .error fault) :
    line.commit =
      ({ line with committed := some error }, some ⟨line.text, error, none⟩) := by
  -- after a fault the line stays as it is, and so does the expression shown
  have settled : line.settle (.error fault) = { line with committed := some error } := rfl
  have expression : ({ line with committed := some error } : Line).expression = line.text :=
    if_neg some_text
  rw [commit_of_text some_text]
  simp only [result, settled, expression]
  rfl

/-- After a commit with a finite result another one changes nothing and shows the same, exactly for
the results up to `Display.limit`. Beyond it the second commit leaves the text and the cursor, but
shows an error in place of the result, with nothing to copy. -/
theorem commit_commit (some_text : line.text ≠ [])
    (result : evaluate line.text = .ok (.finite x)) :
    (line.commit.1.commit = line.commit ↔ x.magnitude ≤ limit) ∧
      (limit < x.magnitude →
        line.commit.1.commit =
          ({ line.commit.1 with committed := some error }, some ⟨number x, error, none⟩)) := by
  -- the first commit leaves the text of the result, whatever the line was
  have first := commit_of_finite some_text result
  have text : (ofResult x).text ≠ [] := by
    rw [text_ofResult]
    exact number_ne_nil x
  have fails (beyond : limit < x.magnitude) : (ofResult x).commit =
      ({ ofResult x with committed := some error }, some ⟨number x, error, none⟩) := by
    obtain ⟨fault, fault_eq⟩ := exists_evaluate_number_eq_error beyond
    rw [← text_ofResult] at fault_eq
    rw [commit_of_error text fault_eq, text_ofResult]
  rw [first]
  refine ⟨⟨fun same => ?_, fun le => ?_⟩, fails⟩
  · by_contra beyond
    rw [fails (not_le.mp beyond)] at same
    simp [Outcome.ofResult] at same
  · obtain ⟨y, finite⟩ := (exists_shown_eq_finite_iff x).mpr le
    obtain ⟨z, again, shape⟩ := exists_evaluate_number finite
    rw [← text_ofResult] at again
    rw [commit_of_finite text again, ofResult, Outcome.ofResult, shape]
    rfl

theorem commit_commit_sum_and_largest :
    (ofText "1+1".toList).commit.1.commit = (ofText "1+1".toList).commit ∧
      (ofText "1.7976931348623157e308".toList).commit.1.commit.2 =
        some ⟨"inf".toList, error, none⟩ := by
  let two : FiniteDouble := ⟨false, leadingUnit, -51, by decide⟩
  have sum : evaluate (ofText "1+1".toList).text = .ok (.finite two) := by decide +kernel
  have top : evaluate (ofText "1.7976931348623157e308".toList).text = .ok (.finite largest) := by
    decide +kernel
  refine ⟨(commit_commit (by decide) sum).1.mpr (by decide +kernel), ?_⟩
  have shape : number largest = "inf".toList := by decide +kernel
  rw [(commit_commit (by decide) top).2 (by decide +kernel), shape]

end Line

end DeskCalculator
