import DeskCalculator.Display
import DeskCalculator.Proofs.Number.Numerals
import DeskCalculator.Proofs.Number.ReadBack

/-!
# Rounding for display

A double that came of rounding to some number of significant digits is not changed by rounding it
again to as many digits or more. So the double that is written for a result is written for itself,
in the same form.
-/
namespace DeskCalculator

namespace Display

open Decimal

/-! ## Rounding twice -/

theorem rounded_eq_finite_iff {digits : Nat} (some_digit : 1 ≤ digits) {x : FiniteDouble}
    (pos : 0 < x.magnitude) {y : FiniteDouble} :
    rounded (digits + 1) x = .finite y ↔
      y.negative = x.negative ∧
        y.magnitude = toBinary (nearest (digits + 1) x.magnitude).value := by
  rw [rounded, toDouble_eq_nearest]
  exact Double.nearest_eq_finite_iff (nearest_value_pos some_digit pos)

theorem rounded_pos {digits : Nat} (some_digit : 1 ≤ digits) {x y : FiniteDouble}
    (pos : 0 < x.magnitude) (rounds : rounded (digits + 1) x = .finite y) : 0 < y.magnitude := by
  obtain ⟨_, value⟩ := (rounded_eq_finite_iff some_digit pos).mp rounds
  have part := abs_sub_nearest_le_part some_digit pos
  have nearer := x.isBinary.abs_sub_toBinary_le (nearest_value_pos some_digit pos)
  rw [← FiniteDouble.magnitude, ← value, abs_sub_comm _ x.magnitude] at nearer
  -- zero is further from the decimal than the double itself
  have close := abs_le.mp part
  have closer := abs_le.mp (nearer.trans part)
  linarith

/-- A double that came of rounding stays where it is when it is rounded to as many digits or
more. -/
theorem rounded_again {digits more : Nat} (some_digit : 1 ≤ digits) (le : digits ≤ more)
    (few : more ≤ 14) {x y : FiniteDouble} (pos : 0 < x.magnitude)
    (rounds : rounded (digits + 1) x = .finite y) : rounded (more + 1) y = .finite y := by
  have y_pos := rounded_pos some_digit pos rounds
  obtain ⟨_, value⟩ := (rounded_eq_finite_iff some_digit pos).mp rounds
  -- the decimal that the double came of has few enough digits for the second rounding
  have short : (nearest (digits + 1) x.magnitude).coefficient ≤ 10 ^ (more + 1) :=
    (nearest_coefficient_le _ _).trans (Nat.pow_le_pow_right (by decide) (by omega))
  obtain ⟨_, same⟩ :=
    toBinary_nearest few y_pos (nearest_coefficient_pos some_digit pos) short value.symm
  exact (rounded_eq_finite_iff (some_digit.trans le) y_pos).mpr ⟨rfl, same.symm⟩

/-! ## The written double -/

/-- The double that is written for a result: the last one that the result is rounded to. -/
def shown (x : FiniteDouble) : Double :=
  if needsExponent (rounded 12 x) then rounded 10 x else rounded 12 x

/-- The form in which a double is written. -/
def form (y : Double) : Decimal → List Char :=
  if needsExponent y then Decimal.scientific else Decimal.positional

theorem isZero_eq_false_iff (x : FiniteDouble) : x.isZero = false ↔ 0 < x.magnitude := by
  rw [FiniteDouble.magnitude_pos_iff, FiniteDouble.isZero, beq_eq_false_iff_ne,
    Nat.pos_iff_ne_zero]

theorem shown_of_isZero {x : FiniteDouble} (zero : ¬0 < x.magnitude) :
    shown x = .finite (.zero x.negative) := by
  have magnitude : x.magnitude = 0 := le_antisymm (not_lt.mp zero) x.magnitude_nonneg
  have rounds (digits : Nat) : rounded digits x = .finite (.zero x.negative) := by
    -- nothing is known of the place of a zero, but its coefficient is zero in any place
    have coefficient : (nearest digits x.magnitude).coefficient = 0 := by
      have fixed := roundEven_intCast 0
      rw [Int.cast_zero] at fixed
      rw [magnitude, nearest, zero_div, fixed]
      rfl
    rw [rounded, toDouble, if_pos coefficient]
  rw [shown, rounds, rounds, ite_self]

theorem number_eq_written {x : FiniteDouble} (pos : 0 < x.magnitude) :
    number x = written (form (shown x)) (shown x) := by
  rw [number, (isZero_eq_false_iff x).mpr pos, shown, form]
  cases plain : needsExponent (rounded 12 x) with
  | false => simp [plain]
  | true => cases short : needsExponent (rounded 10 x) <;> simp [short]

theorem shown_pos {x y : FiniteDouble} (pos : 0 < x.magnitude) (finite : shown x = .finite y) :
    0 < y.magnitude := by
  unfold shown at finite
  split at finite
  · exact rounded_pos (by decide) pos finite
  · exact rounded_pos (by decide) pos finite

/-- What is written for a result is written for itself. -/
theorem shown_again {x y : FiniteDouble} (pos : 0 < x.magnitude) (finite : shown x = .finite y) :
    shown y = .finite y := by
  unfold shown at finite
  split at finite
  · -- ten digits lie on the grid of twelve, so either choice leaves the double where it is
    have plain : rounded 12 y = .finite y :=
      rounded_again (by decide) (by decide) (by decide) pos finite
    have short : rounded 10 y = .finite y :=
      rounded_again (by decide) (by decide) (by decide) pos finite
    rw [shown, plain, short, ite_self]
  · next positional =>
    have plain : rounded 12 y = .finite y :=
      rounded_again (by decide) (by decide) (by decide) pos finite
    rw [finite] at positional
    rw [shown, plain, if_neg positional]

theorem number_again {x y : FiniteDouble} (pos : 0 < x.magnitude) (finite : shown x = .finite y) :
    number y = number x := by
  rw [number_eq_written pos, number_eq_written (shown_pos pos finite), shown_again pos finite,
    finite]

end Display

end DeskCalculator
