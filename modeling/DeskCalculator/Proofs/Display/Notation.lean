import DeskCalculator.Proofs.Display.Rounding
import DeskCalculator.Proofs.Number.Shortest
import DeskCalculator.Proofs.Number.Significant

/-!
# The decimal that is shown

Which notation a result is written in is decided on doubles, and what is written is the shortest
decimal of a double. Neither loses anything: the decisions come out as they would on the rounded
decimals themselves, and the digits of a normal double are those of the decimal that it was rounded
to.
-/
namespace DeskCalculator

namespace Display

open Decimal

/-! ## Which notation -/

/-- The magnitudes that are written without an exponent, from a millionth up to below a million
million. -/
def Plain (v : Rat) : Prop := (10 : Rat) ^ (-6 : Int) ≤ v ∧ v < (10 : Rat) ^ (12 : Int)

instance (v : Rat) : Decidable (Plain v) := inferInstanceAs (Decidable (_ ∧ _))

def upperDouble : FiniteDouble := ⟨false, 8192000000000000, -13, by decide⟩

theorem magnitude_upperDouble : upperDouble.magnitude = upperLimit := by decide +kernel

theorem value_power (k : Int) : Decimal.value ⟨1, k⟩ = (10 : Rat) ^ k := by
  rw [value, Nat.cast_one, one_mul]

theorem toBinary_of_toDouble {d : Decimal} (pos : 0 < d.coefficient) {negative : Bool}
    {y : FiniteDouble} (reads : d.toDouble negative = .finite y) :
    toBinary d.value = y.magnitude := by
  rw [toDouble_eq_nearest] at reads
  exact ((Double.nearest_eq_finite_iff (value_pos pos)).mp reads).2.symm

section Thresholds

variable {d : Decimal} (pos : 0 < d.coefficient) (short : d.coefficient ≤ 10 ^ 15)
include pos short

theorem toBinary_lt_upperLimit_iff :
    toBinary d.value < upperLimit ↔ d.value < (10 : Rat) ^ (12 : Int) := by
  have reads : Decimal.toDouble false ⟨1, 12⟩ = .finite upperDouble := by decide +kernel
  rw [← magnitude_upperDouble, ← value_power]
  exact toBinary_lt_iff (by decide) pos short (by decide) (by decide)
    (toBinary_of_toDouble (by decide) reads)

theorem toBinary_lt_lowerLimit_iff :
    toBinary d.value < lowerLimit.magnitude ↔ d.value < (10 : Rat) ^ (-6 : Int) := by
  have reads : Decimal.toDouble false ⟨1, -6⟩ = .finite lowerLimit := by decide +kernel
  rw [← value_power]
  exact toBinary_lt_iff (by decide) pos short (by decide) (by decide)
    (toBinary_of_toDouble (by decide) reads)

/-- The double of a short decimal is written with an exponent exactly if the decimal is not among
the magnitudes written without. -/
theorem needsExponent_toDouble (negative : Bool) :
    needsExponent (d.toDouble negative) = true ↔ ¬Plain d.value := by
  cases result : d.toDouble negative with
  | finite y =>
    rw [needsExponent, decide_eq_true_eq, ← toBinary_of_toDouble pos result, ← not_lt,
      toBinary_lt_upperLimit_iff pos short, toBinary_lt_lowerLimit_iff pos short, Plain,
      not_and_or, not_le, or_comm]
  | nan | infinite =>
    -- a decimal below the upper limit does not become an infinity
    refine iff_of_true rfl fun plain => ?_
    have le : d.value ≤ upperDouble.magnitude := by
      rw [magnitude_upperDouble, upperLimit]
      exact plain.2.le.trans (by norm_num)
    obtain ⟨y, finite⟩ := Double.exists_nearest_eq_finite negative (value_pos pos) le
    rw [← toDouble_eq_nearest, result] at finite
    cases finite

end Thresholds

/-! ## The rounded decimal -/

/-- The decimal that a magnitude is shown as: twelve significant digits where they are written
without an exponent, otherwise ten. -/
def decimal (v : Rat) : Decimal :=
  if Plain (nearest 12 v).value then nearest 12 v else nearest 10 v

section

variable {v w : Rat} (pos : 0 < v)
include pos

theorem decimal_coefficient_pos : 0 < (decimal v).coefficient := by
  unfold decimal
  split <;> exact nearest_coefficient_pos (by decide) pos

omit pos in
theorem decimal_coefficient_le (v : Rat) : (decimal v).coefficient ≤ 10 ^ 12 := by
  unfold decimal
  split
  · exact nearest_coefficient_le 12 v
  · exact (nearest_coefficient_le 10 v).trans (by decide)

/-- Outside of the magnitudes written without an exponent, ten digits come back to them only where
they round up to a millionth. -/
theorem plain_nearest_ten_iff (outside : ¬Plain (nearest 12 v).value) :
    Plain (nearest 10 v).value ↔ (nearest 10 v).value = (10 : Rat) ^ (-6 : Int) := by
  rcases le_or_gt ((10 : Rat) ^ (12 : Int)) (nearest 12 v).value with large | below
  · have reached : (10 : Rat) ^ (12 : Int) ≤ (nearest 10 v).value :=
      zpow_le_nearest_of_lt (show 9 < 11 by decide) pos large
    constructor
    · intro plain
      exact absurd plain.2 (not_lt.mpr reached)
    · intro millionth
      rw [millionth] at reached
      norm_num at reached
  · have small : v < (10 : Rat) ^ (-6 : Int) := by
      by_contra above
      exact outside ⟨zpow_le_nearest 11 pos (not_lt.mp above), below⟩
    have at_most := nearest_le_zpow 10 pos small
    constructor
    · intro plain
      exact le_antisymm at_most plain.1
    · intro millionth
      rw [millionth]
      exact ⟨le_rfl, by norm_num⟩

/-- A larger magnitude is not shown as a smaller decimal, whatever digits either is rounded to. -/
theorem value_decimal_mono (le : v ≤ w) : (decimal v).value ≤ (decimal w).value := by
  have twelve : (nearest 12 v).value ≤ (nearest 12 w).value := value_nearest_mono 11 pos le
  have ten : (nearest 10 v).value ≤ (nearest 10 w).value := value_nearest_mono 9 pos le
  unfold decimal
  split_ifs with v_plain w_plain w_plain
  · exact twelve
  · -- only the upper limit can have been reached in between
    have large : (10 : Rat) ^ (12 : Int) ≤ (nearest 12 w).value := by
      by_contra below
      exact w_plain ⟨v_plain.1.trans twelve, not_le.mp below⟩
    have reached := zpow_le_nearest_of_lt (show 9 < 11 by decide) (pos.trans_le le) large
    exact v_plain.2.le.trans reached
  · -- only the lower limit can have been reached in between
    have small : v < (10 : Rat) ^ (-6 : Int) := by
      by_contra above
      exact v_plain ⟨zpow_le_nearest 11 pos (not_lt.mp above), twelve.trans_lt w_plain.2⟩
    exact (nearest_le_zpow 10 pos small).trans w_plain.1
  · exact ten

end

/-! ## What is written -/

variable {x y : FiniteDouble}

theorem shown_eq_toDouble (pos : 0 < x.magnitude) :
    shown x = (decimal x.magnitude).toDouble x.negative := by
  have twelve := needsExponent_toDouble (nearest_coefficient_pos (by decide) pos)
    ((nearest_coefficient_le 12 x.magnitude).trans (by decide)) x.negative
  rw [shown, decimal, rounded, rounded]
  by_cases plain : Plain (nearest 12 x.magnitude).value
  · rw [if_pos plain, if_neg (fun exponent => twelve.mp exponent plain)]
  · rw [if_neg plain, if_pos (twelve.mpr plain)]

/-- Rounding for display leaves a normal double normal. -/
theorem leadingUnit_le_of_shown (normal : (2 : Rat) ^ (-1022 : Int) ≤ x.magnitude)
    (finite : shown x = .finite y) : leadingUnit ≤ y.mantissa := by
  have least_pos := two_zpow_pos (-1022)
  have pos := least_pos.trans_le normal
  have reads := (shown_eq_toDouble pos).symm.trans finite
  -- the least normal double is rounded up
  have least : (2 : Rat) ^ (-1022 : Int) ≤ (decimal ((2 : Rat) ^ (-1022 : Int))).value := by
    decide +kernel
  exact leadingUnit_le_of_toBinary (least.trans (value_decimal_mono least_pos normal))
    (toBinary_of_toDouble (decimal_coefficient_pos pos) reads)

theorem exists_shown_of_plain (pos : 0 < x.magnitude)
    (plain : Plain (nearest 12 x.magnitude).value) : ∃ y, shown x = .finite y := by
  have rounded_plain : Plain (decimal x.magnitude).value := by rwa [decimal, if_pos plain]
  have exponent_iff := needsExponent_toDouble (decimal_coefficient_pos pos)
    ((decimal_coefficient_le x.magnitude).trans (by decide)) x.negative
  rw [← shown_eq_toDouble pos] at exponent_iff
  cases result : shown x with
  | finite y => exact ⟨y, rfl⟩
  | nan | infinite =>
    rw [result] at exponent_iff
    exact absurd rounded_plain (exponent_iff.mp rfl)

/-- A text with a minus in front of it or without. -/
def withSign (negative : Bool) (text : List Char) : List Char :=
  if negative then '-' :: text else text

/-- A result whose rounded decimal reads to a normal double is shown as that decimal. -/
theorem number_eq_decimal (pos : 0 < x.magnitude) (finite : shown x = .finite y)
    (normal : leadingUnit ≤ y.mantissa) :
    number x = withSign x.negative
      (if Plain (decimal x.magnitude).value then (decimal x.magnitude).normalize.positional
        else (decimal x.magnitude).normalize.scientific) := by
  have d_pos := decimal_coefficient_pos pos
  have d_short := decimal_coefficient_le x.magnitude
  have reads := (shown_eq_toDouble pos).symm.trans finite
  have sign : y.negative = x.negative := by
    rw [toDouble_eq_nearest] at reads
    exact ((Double.nearest_eq_finite_iff (value_pos d_pos)).mp reads).1
  have digits : y.shortest = (decimal x.magnitude).normalize :=
    FiniteDouble.shortest_eq_normalize (show 11 ≤ 14 by decide) normal d_pos d_short
      (toBinary_of_toDouble d_pos reads)
  have exponent_iff := needsExponent_toDouble d_pos (d_short.trans (by decide)) x.negative
  rw [reads] at exponent_iff
  rw [number_eq_written pos, finite, written, form, sign, digits, withSign]
  by_cases plain : Plain (decimal x.magnitude).value
  · rw [if_pos plain, if_neg (fun exponent => exponent_iff.mp exponent plain)]
  · rw [if_neg plain, if_pos (exponent_iff.mpr plain)]

/-- A normal double is shown as its exact value rounded to twelve significant digits, where that
lies from a millionth up to below a million million. Any other is shown as its exact value rounded
to ten digits, as long as these do not lie beyond the doubles: with an exponent, or without one
where they come to a millionth. Neither text has a trailing zero behind its point. -/
theorem number_eq_rounded (normal : (2 : Rat) ^ (-1022 : Int) ≤ x.magnitude) :
    ∃ plain short : Decimal, plain.Rounds 12 x.magnitude ∧ short.Rounds 10 x.magnitude ∧
      (Plain plain.value → number x = withSign x.negative plain.normalize.positional) ∧
      (¬Plain plain.value → (short.toDouble x.negative).isFinite = true →
        number x = withSign x.negative
          (if short.value = (10 : Rat) ^ (-6 : Int) then short.normalize.positional
            else short.normalize.scientific)) ∧
      Numeral.Trimmed plain.normalize.positional none ∧
      Numeral.Trimmed short.normalize.positional none ∧
      ∃ k, Numeral.Trimmed short.normalize.scientific (some k) := by
  have pos : 0 < x.magnitude := (two_zpow_pos _).trans_le normal
  have twelve_pos : 0 < (nearest 12 x.magnitude).coefficient :=
    nearest_coefficient_pos (by decide) pos
  have ten_pos : 0 < (nearest 10 x.magnitude).coefficient :=
    nearest_coefficient_pos (by decide) pos
  refine ⟨nearest 12 x.magnitude, nearest 10 x.magnitude, rounds_nearest 12 pos,
    rounds_nearest 10 pos, fun plain => ?_, fun outside within => ?_,
    (Numeral.laidOut_positional _).trimmed (normalize_coefficient_mod twelve_pos),
    (Numeral.laidOut_positional _).trimmed (normalize_coefficient_mod ten_pos),
    _, (Numeral.laidOut_scientific _).trimmed (normalize_coefficient_mod ten_pos)⟩
  · obtain ⟨y, finite⟩ := exists_shown_of_plain pos plain
    have twelve : decimal x.magnitude = nearest 12 x.magnitude := if_pos plain
    rw [number_eq_decimal pos finite (leadingUnit_le_of_shown normal finite), twelve, if_pos plain]
  · have ten : decimal x.magnitude = nearest 10 x.magnitude := if_neg outside
    obtain ⟨y, finite⟩ : ∃ y, shown x = .finite y := by
      rw [shown_eq_toDouble pos, ten]
      cases result : (nearest 10 x.magnitude).toDouble x.negative with
      | finite y => exact ⟨y, rfl⟩
      | nan | infinite =>
        rw [result] at within
        cases within
    rw [number_eq_decimal pos finite (leadingUnit_le_of_shown normal finite), ten]
    simp only [plain_nearest_ten_iff pos outside]

/-- Rounded to twelve digits this double stays below a millionth, rounded to ten it does not. -/
theorem number_eq_rounded_to_millionth :
    let x : FiniteDouble := ⟨false, 4722366482680751, -72, by decide⟩
    (2 : Rat) ^ (-1022 : Int) ≤ x.magnitude ∧ number x = "0.000001".toList := by
  intro x
  have normal : (2 : Rat) ^ (-1022 : Int) ≤ x.magnitude := by decide +kernel
  have pos := (two_zpow_pos _).trans_le normal
  obtain ⟨plain, short, twelve, ten, -, outside, -⟩ := number_eq_rounded normal
  rw [twelve.eq_nearest pos, ten.eq_nearest pos] at outside
  refine ⟨normal, ?_⟩
  rw [outside (by decide +kernel) (by decide +kernel)]
  decide +kernel

end Display

end DeskCalculator
