import DeskCalculator.Proofs.Display.Notation
import DeskCalculator.Proofs.Display.Stability

/-!
# The order of shown results

A result is not shown as a smaller number than a result below it, and results that are shown as the
same number have the same text. Rounding for display keeps the order of results, whichever digits
and whichever notation they come to, and the shortest decimals of doubles are in the order of the
doubles, as each of them reads back to its own.
-/
namespace DeskCalculator

/-! ## Numerals -/

namespace Numeral

/-- The number that a numeral denotes, before it is rounded to a double. -/
def value? (text : List Char) : Option Rat :=
  let (negative, rest) := splitSign text
  (decimal? rest).map fun d => if negative then -d.value else d.value

theorem Writes.value? {text : List Char} {v : Rat} (writes : Writes text v) (negative : Bool) :
    value? (if negative then '-' :: text else text) = some (if negative then -v else v) := by
  obtain ⟨d, read, rfl⟩ := writes.exists_decimal
  rw [Numeral.value?, writes.splitSign]
  simp only [read, Option.map_some]

/-- What denotes a number reads to the double nearest to it. -/
theorem exists_decimal_of_value? {text : List Char} {v : Rat} (denotes : value? text = some v) :
    ∃ (negative : Bool) (d : Decimal),
      Double.ofNumeral? text = some (d.toDouble negative) ∧
        v = if negative then -d.value else d.value := by
  rcases parts : splitSign text with ⟨negative, rest⟩
  rw [value?, parts] at denotes
  obtain ⟨d, read, signed⟩ := Option.map_eq_some_iff.mp denotes
  refine ⟨negative, d, ?_, signed.symm⟩
  rw [Double.ofNumeral?, parts]
  simp only [read]

end Numeral

/-! ## Shortest decimals -/

namespace FiniteDouble

variable {x y : FiniteDouble}

theorem toBinary_shortest (pos : 0 < x.magnitude) :
    0 < x.shortest.value ∧ toBinary x.shortest.value = x.magnitude := by
  have back : x.readsBack x.shortest = true := decide_eq_true (toDouble_shortest pos)
  obtain ⟨coefficient_pos, reads⟩ := (readsBack_iff pos _).mp back
  exact ⟨Decimal.value_pos coefficient_pos, reads⟩

theorem eq_of_value_eq (pos : 0 < x.magnitude) (same : x.value = y.value) : x = y := by
  have nonneg := y.magnitude_nonneg
  unfold value at same
  cases x_sign : x.negative <;> cases y_sign : y.negative <;>
    simp only [x_sign, y_sign, Bool.false_eq_true, ↓reduceIte] at same
  · exact eq_of_magnitude_eq (x_sign.trans y_sign.symm) same
  · linarith
  · linarith
  · exact eq_of_magnitude_eq (x_sign.trans y_sign.symm) (neg_inj.mp same)

end FiniteDouble

namespace Display

open Numeral

variable {x y u w : FiniteDouble}

/-- The magnitude of the number that a double is written as. -/
def writtenMagnitude (y : FiniteDouble) : Rat := if 0 < y.magnitude then y.shortest.value else 0

theorem writtenMagnitude_pos (pos : 0 < y.magnitude) : 0 < writtenMagnitude y := by
  rw [writtenMagnitude, if_pos pos]
  exact (FiniteDouble.toBinary_shortest pos).1

theorem writtenMagnitude_nonneg (y : FiniteDouble) : 0 ≤ writtenMagnitude y := by
  by_cases pos : 0 < y.magnitude
  · exact (writtenMagnitude_pos pos).le
  · rw [writtenMagnitude, if_neg pos]

theorem writtenMagnitude_lt (lt : u.magnitude < w.magnitude) :
    writtenMagnitude u < writtenMagnitude w := by
  have w_pos := u.magnitude_nonneg.trans_lt lt
  by_cases u_pos : 0 < u.magnitude
  · obtain ⟨_, u_reads⟩ := FiniteDouble.toBinary_shortest u_pos
    obtain ⟨w_shortest_pos, w_reads⟩ := FiniteDouble.toBinary_shortest w_pos
    rw [writtenMagnitude, writtenMagnitude, if_pos u_pos, if_pos w_pos]
    by_contra above
    -- reading is monotone, so the larger decimal cannot read to the smaller double
    have monotone := toBinary_mono w_shortest_pos (not_lt.mp above)
    rw [u_reads, w_reads] at monotone
    exact absurd lt (not_lt.mpr monotone)
  · rw [writtenMagnitude, if_neg u_pos]
    exact writtenMagnitude_pos w_pos

/-- The number that a double is written as. -/
def writtenValue (y : FiniteDouble) : Rat :=
  if y.negative then -writtenMagnitude y else writtenMagnitude y

theorem writtenValue_lt (lt : u.value < w.value) : writtenValue u < writtenValue w := by
  have u_nonneg := writtenMagnitude_nonneg u
  have w_nonneg := writtenMagnitude_nonneg w
  unfold FiniteDouble.value at lt
  unfold writtenValue
  cases u_sign : u.negative <;> cases w_sign : w.negative <;>
    simp only [u_sign, w_sign, Bool.false_eq_true, ↓reduceIte] at lt ⊢
  · exact writtenMagnitude_lt lt
  · linarith [u.magnitude_nonneg, w.magnitude_nonneg]
  · -- one of the two is no zero
    rcases u.magnitude_nonneg.eq_or_lt with zero | pos
    · have w_pos := writtenMagnitude_pos (y := w) (by linarith)
      linarith
    · have u_pos := writtenMagnitude_pos pos
      linarith
  · exact neg_lt_neg (writtenMagnitude_lt (neg_lt_neg_iff.mp lt))

/-! ## Rounding for display -/

theorem number_of_zero (zero : ¬0 < x.magnitude) : number x = ['0'] := by
  rw [number, (isZero_iff x).mpr zero]
  rfl

theorem magnitude_shown_of_zero (zero : ¬0 < x.magnitude) (finite : shown x = .finite u) :
    u.magnitude = 0 := by
  rw [shown_of_isZero zero] at finite
  rw [← Double.finite.inj finite, FiniteDouble.magnitude_zero]

theorem negative_shown (finite : shown x = .finite u) : u.negative = x.negative := by
  by_cases pos : 0 < x.magnitude
  · rw [shown_eq_toDouble pos, Decimal.toDouble_eq_nearest] at finite
    have value_pos := Decimal.value_pos (decimal_coefficient_pos pos)
    exact ((Double.nearest_eq_finite_iff value_pos).mp finite).1
  · rw [shown_of_isZero pos] at finite
    rw [← Double.finite.inj finite]
    rfl

theorem magnitude_shown_mono (x_shown : shown x = .finite u) (y_shown : shown y = .finite w)
    (le : x.magnitude ≤ y.magnitude) : u.magnitude ≤ w.magnitude := by
  by_cases pos : 0 < x.magnitude
  · have y_pos := pos.trans_le le
    rw [shown_eq_toDouble pos] at x_shown
    rw [shown_eq_toDouble y_pos] at y_shown
    have x_value_pos := decimal_coefficient_pos pos
    rw [← toBinary_of_toDouble x_value_pos x_shown,
      ← toBinary_of_toDouble (decimal_coefficient_pos y_pos) y_shown]
    exact toBinary_mono (Decimal.value_pos x_value_pos) (value_decimal_mono pos le)
  · rw [magnitude_shown_of_zero pos x_shown]
    exact w.magnitude_nonneg

theorem value_shown_mono (x_shown : shown x = .finite u) (y_shown : shown y = .finite w)
    (le : x.value ≤ y.value) : u.value ≤ w.value := by
  have x_nonneg := x.magnitude_nonneg
  have y_nonneg := y.magnitude_nonneg
  have u_nonneg := u.magnitude_nonneg
  have w_nonneg := w.magnitude_nonneg
  unfold FiniteDouble.value at le ⊢
  rw [negative_shown x_shown, negative_shown y_shown]
  cases x_sign : x.negative <;> cases y_sign : y.negative <;>
    simp only [x_sign, y_sign, Bool.false_eq_true, ↓reduceIte] at le ⊢
  · exact magnitude_shown_mono x_shown y_shown le
  · -- both are zeros
    rw [magnitude_shown_of_zero (by linarith) x_shown,
      magnitude_shown_of_zero (by linarith) y_shown, neg_zero]
  · linarith
  · exact neg_le_neg (magnitude_shown_mono y_shown x_shown (neg_le_neg_iff.mp le))

/-! ## What is written -/

theorem value?_number (finite : shown x = .finite u) :
    value? (number x) = some (writtenValue u) := by
  by_cases pos : 0 < x.magnitude
  · rw [number_eq_written pos, finite, written, (writes_form u).value?, writtenValue,
      writtenMagnitude, if_pos (shown_pos pos finite)]
  · have zero := magnitude_shown_of_zero pos finite
    rw [number_of_zero pos, writtenValue, writtenMagnitude, zero, if_neg (lt_irrefl 0), neg_zero,
      ite_self]
    exact writes_zero.value? false

theorem number_congr (x_shown : shown x = .finite u) (y_shown : shown y = .finite w)
    (same : u.value = w.value) : number x = number y := by
  by_cases pos : 0 < x.magnitude
  · have equal := FiniteDouble.eq_of_value_eq (shown_pos pos x_shown) same
    have y_pos : 0 < y.magnitude := by
      by_contra zero
      have w_zero := magnitude_shown_of_zero zero y_shown
      rw [← equal] at w_zero
      exact (shown_pos pos x_shown).ne' w_zero
    rw [number_eq_written pos, number_eq_written y_pos, x_shown, y_shown, equal]
  · have zero : ¬0 < y.magnitude := by
      intro y_pos
      have equal := FiniteDouble.eq_of_value_eq (shown_pos y_pos y_shown) same.symm
      have u_zero := magnitude_shown_of_zero pos x_shown
      rw [← equal] at u_zero
      exact (shown_pos y_pos y_shown).ne' u_zero
    rw [number_of_zero pos, number_of_zero zero]

/-- A result is not shown as a smaller number than a result below it, and two results that are shown
as the same number have the same text. -/
theorem number_mono (x_shown : shown x = .finite u) (y_shown : shown y = .finite w)
    (le : x.value ≤ y.value) :
    ∃ v v', value? (number x) = some v ∧ value? (number y) = some v' ∧ v ≤ v' ∧
      (v = v' → number x = number y) := by
  refine ⟨writtenValue u, writtenValue w, value?_number x_shown, value?_number y_shown, ?_⟩
  rcases (value_shown_mono x_shown y_shown le).lt_or_eq with below | same
  · have lt := writtenValue_lt below
    exact ⟨lt.le, fun equal => absurd equal lt.ne⟩
  · have text := number_congr x_shown y_shown same
    refine ⟨?_, fun _ => text⟩
    -- the same text denotes one number
    have value := value?_number y_shown
    rw [← text, value?_number x_shown] at value
    exact (Option.some.inj value).le

/-- The first result keeps its twelve digits, the second comes to a power of ten. -/
theorem number_mono_at_upper_limit :
    let x : FiniteDouble := ⟨false, 8191999999995085, -13, by decide⟩
    let y : FiniteDouble := ⟨false, 8191999999999181, -13, by decide⟩
    shown x = .finite ⟨false, 8191999999991808, -13, by decide⟩ ∧ shown y = .finite upperDouble ∧
      x.value ≤ y.value ∧
      ∃ v v', value? "999999999999".toList = some v ∧ value? "1e12".toList = some v' ∧ v ≤ v' := by
  intro x y
  have x_shown : shown x = .finite ⟨false, 8191999999991808, -13, by decide⟩ := by decide +kernel
  have y_shown : shown y = .finite upperDouble := by decide +kernel
  have le : x.value ≤ y.value := by decide +kernel
  have x_text : number x = "999999999999".toList := by decide +kernel
  have y_text : number y = "1e12".toList := by decide +kernel
  obtain ⟨v, v', x_value, y_value, ordered, -⟩ := number_mono x_shown y_shown le
  rw [x_text] at x_value
  rw [y_text] at y_value
  exact ⟨x_shown, y_shown, le, v, v', x_value, y_value, ordered⟩

end Display

end DeskCalculator
