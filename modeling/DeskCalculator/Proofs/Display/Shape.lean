import DeskCalculator.Proofs.Display.Range
import DeskCalculator.Proofs.Display.Stability

/-!
# The shape of a shown result

Whatever its size, a finite result is shown as a numeral or as an infinity that is spelt out, with a
minus in front of it or without. So the label of an error or of a value that is no finite number is
never taken for a number, nor a number for a label.
-/
namespace DeskCalculator

namespace Display

open Numeral

/-- What is shown of a finite result without its sign. -/
def Body (text : List Char) : Prop := (∃ v, Writes text v) ∨ text = "inf".toList

theorem exists_number_eq (x : FiniteDouble) : ∃ (negative : Bool) (body : List Char),
    number x = (if negative then '-' :: body else body) ∧ Body body := by
  by_cases le : x.magnitude ≤ limit
  · obtain ⟨y, finite⟩ := (exists_shown_eq_finite_iff x).mpr le
    obtain ⟨negative, body, v, z, shape, writes, _⟩ := exists_numeral finite
    exact ⟨negative, body, shape, .inl ⟨v, writes⟩⟩
  · have beyond := not_le.mp le
    refine ⟨x.negative, "inf".toList, ?_, .inr rfl⟩
    rw [number_eq_written (pos_of_limit_lt beyond), shown_of_limit_lt beyond, written]
    cases x.negative <;> rfl

/-- The first character behind the sign is a digit or the first letter of an infinity. -/
theorem Body.exists_cons {text : List Char} (body : Body text) :
    ∃ c rest, text = c :: rest ∧ (c.isDigit = true ∨ c = 'i') := by
  rcases body with ⟨v, writes⟩ | rfl
  · obtain ⟨c, rest, shape, digit⟩ := writes.exists_cons
    exact ⟨c, rest, shape, .inl digit⟩
  · exact ⟨'i', "nf".toList, rfl, .inr rfl⟩

theorem number_ne_nil (x : FiniteDouble) : number x ≠ [] := by
  obtain ⟨negative, text, shape, body⟩ := exists_number_eq x
  obtain ⟨c, rest, rfl, _⟩ := body.exists_cons
  rw [shape]
  cases negative <;> simp

/-! ## Labels -/

/-- Behind a minus or not, the text starts with a digit or with the first letter of an infinity. -/
def startsNumber (text : List Char) : Bool :=
  (if text.head? = some '-' then text.tail else text).head?.any fun c => c.isDigit || c == 'i'

theorem startsNumber_number (x : FiniteDouble) : startsNumber (number x) = true := by
  obtain ⟨negative, body, shape, is_body⟩ := exists_number_eq x
  obtain ⟨c, rest, rfl, first⟩ := is_body.exists_cons
  have start : (c.isDigit || c == 'i') = true := by simpa using first
  have no_minus : c ≠ '-' := by
    rintro rfl
    exact absurd start (by decide)
  rw [shape]
  cases negative <;> simp [startsNumber, no_minus, first]

theorem number_ne_of_startsNumber {label : List Char} (no_number : startsNumber label = false)
    (x : FiniteDouble) : number x ≠ label := by
  rintro rfl
  rw [startsNumber_number] at no_number
  cases no_number

theorem isSentinel_number (x : FiniteDouble) : isSentinel (number x) = false := by
  have indeterminate_ne : number x ≠ indeterminate := number_ne_of_startsNumber (by decide) x
  have infinity_ne : number x ≠ infinity := number_ne_of_startsNumber (by decide) x
  have negative_ne : number x ≠ negativeInfinity := number_ne_of_startsNumber (by decide) x
  simp [isSentinel, indeterminate_ne, infinity_ne, negative_ne]

end Display

namespace Double

theorem display_ne_nil (x : Double) : x.display ≠ [] := by
  cases x with
  | nan => decide
  | infinite negative => cases negative <;> decide
  | finite x => exact Display.number_ne_nil x

theorem display_ne_error (x : Double) : x.display ≠ Display.error := by
  cases x with
  | nan => decide
  | infinite negative => cases negative <;> decide
  | finite x => exact Display.number_ne_of_startsNumber (by decide) x

theorem isSentinel_display (x : Double) : Display.isSentinel x.display = !x.isFinite := by
  cases x with
  | nan => decide
  | infinite negative => cases negative <;> decide
  | finite x => exact Display.isSentinel_number x

end Double

end DeskCalculator
