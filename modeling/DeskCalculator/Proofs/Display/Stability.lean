import DeskCalculator.Evaluation
import DeskCalculator.Proofs.Display.Rounding
import DeskCalculator.Proofs.Token.Literal

/-!
# Reading a shown result

Unless rounding for display has carried a result beyond the doubles, its text is one literal. The
literal denotes the double that was written, and that one is shown under the same text again.
-/
namespace DeskCalculator

/-- A text that is scanned as one literal evaluates to the double that it denotes. -/
theorem evaluate_of_scan_literal {text : List Char} (scanned : scan text = .ok [.literal text])
    {x : Double} (denotes : Double.ofNumeral? text = some x) : evaluate text = .ok x := by
  have some_text : text ≠ [] := ne_nil_of_scan scanned (by simp)
  -- a single literal is its own reverse Polish order, and the machine leaves its number
  have reads : Arithmetic.literal? text = some x := denotes
  rw [evaluate_eq some_text, scanned]
  simp [Except.bind, polish, polishFrom, Machine.run, Machine.runFrom, Machine.step, reads]

namespace Display

open Numeral

variable {x y : FiniteDouble}

theorem writes_form (y : FiniteDouble) : Writes (form (.finite y) y.shortest) y.shortest.value := by
  unfold form
  split
  · exact writes_scientific y.shortest
  · exact writes_positional y.shortest

theorem writes_zero : Writes ['0'] 0 := by
  refine ⟨['0'], [], none, by simp [AllDigits], by simp [AllDigits], by simp, rfl, ?_⟩
  have coefficient : digitsValue (['0'] ++ []) = 0 := rfl
  rw [Decimal.value, coefficient, Nat.cast_zero, zero_mul]

theorem isZero_iff (x : FiniteDouble) : x.isZero = true ↔ ¬0 < x.magnitude := by
  rw [← isZero_eq_false_iff, Bool.not_eq_false]

/-- The text of a result is a numeral of the double that was written, and that one is shown under
the text again. Only the sign of a zero is lost. -/
theorem exists_numeral (finite : shown x = .finite y) :
    ∃ negative text v z, number x = (if negative then '-' :: text else text) ∧ Writes text v ∧
      Double.nearest negative v = .finite z ∧ z.value = y.value ∧ number z = number x := by
  by_cases pos : 0 < x.magnitude
  · refine ⟨y.negative, form (.finite y) y.shortest, y.shortest.value, y, ?_, writes_form y, ?_,
      rfl, number_again pos finite⟩
    · rw [number_eq_written pos, finite, written]
    · rw [← Decimal.toDouble_eq_nearest]
      exact toDouble_shortest (shown_pos pos finite)
  · have zero : number x = ['0'] := by simp [number, (isZero_iff x).mpr pos]
    have same : y = .zero x.negative := by
      rw [shown_of_isZero pos] at finite
      cases finite
      rfl
    refine ⟨false, ['0'], 0, .zero false, zero, writes_zero, Double.nearest_zero false, ?_,
      zero.symm⟩
    rw [same]
    simp [FiniteDouble.value]

/-- The text of a result is scanned as one literal, which denotes the double that was written, and
that one is shown under the same text. -/
theorem number_reads_back (finite : shown x = .finite y) :
    scan (number x) = .ok [.literal (number x)] ∧
      ∃ z, Double.ofNumeral? (number x) = some (.finite z) ∧ z.value = y.value ∧
        number z = number x := by
  obtain ⟨negative, text, v, z, shape, writes, denotes, value, same⟩ := exists_numeral finite
  rw [shape] at same ⊢
  refine ⟨writes.scan negative, z, ?_, value, same⟩
  rw [writes.ofNumeral?, denotes]

theorem number_reads_back_least :
    let least : FiniteDouble := ⟨false, 1, leastExponent, by decide⟩
    let text := "5e-324".toList
    shown least = .finite least ∧ scan text = .ok [.literal text] ∧
      ∃ z, Double.ofNumeral? text = some (.finite z) ∧ z.value = least.value ∧
        number z = text := by
  intro least text
  have shape : number least = text := by decide +kernel
  have finite : shown least = .finite least := by decide +kernel
  rw [← shape]
  exact ⟨finite, number_reads_back finite⟩

/-- Evaluating the text of a result gives a result with the same text. -/
theorem exists_evaluate_number (finite : shown x = .finite y) :
    ∃ z, evaluate (number x) = .ok (.finite z) ∧ number z = number x := by
  obtain ⟨negative, text, v, z, shape, writes, denotes, _, same⟩ := exists_numeral finite
  rw [shape] at same ⊢
  refine ⟨z, evaluate_of_scan_literal (writes.scan negative) ?_, same⟩
  rw [writes.ofNumeral?, denotes]

end Display

end DeskCalculator
