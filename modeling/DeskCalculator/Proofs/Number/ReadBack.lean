import DeskCalculator.Proofs.Number.Decimals

/-!
# Decimals that read back

Seventeen significant digits tell any two doubles apart, so a double is read back from its nearest
decimal with so many digits and also from its shortest one. Up to fifteen digits the converse holds
as far as it can: a double that some decimal with so many digits reads to is read back from its
own nearest decimal. For a normal double that decimal is the first one again, since the grid of
the decimals is coarser than that of the doubles; a subnormal double may have another nearest
decimal, but one that is no further away.
-/
namespace DeskCalculator

open Decimal

/-! ## Seventeen digits -/

theorem toBinary_nearest_seventeen {x : FiniteDouble} (pos : 0 < x.magnitude) :
    0 < (nearest 17 x.magnitude).value ∧
      toBinary (nearest 17 x.magnitude).value = x.magnitude := by
  have step_pos := ten_zpow_pos (lastPlace 17 x.magnitude)
  have close := abs_sub_nearest_le 17 pos
  have step_le := lastPlace_mul_le 16 pos
  have value_pos : 0 < (nearest 17 x.magnitude).value := nearest_value_pos (by decide) pos
  refine ⟨value_pos, ?_⟩
  obtain ⟨m, e, parts, rounded, _⟩ := Double.exists_nearest_eq_ofParts value_pos
  have nearer := x.isBinary.abs_sub_toBinary_le value_pos
  rw [← FiniteDouble.magnitude, abs_sub_comm _ x.magnitude] at nearer
  -- both doubles are within half a decimal step, and doubles are further apart than one step
  have within : |x.magnitude - toBinary (nearest 17 x.magnitude).value| ≤
      (10 : Rat) ^ lastPlace 17 x.magnitude := by
    have triangle := abs_sub_le x.magnitude (nearest 17 x.magnitude).value
      (toBinary (nearest 17 x.magnitude).value)
    linarith
  rw [rounded] at within ⊢
  rcases lt_trichotomy (m * (2 : Rat) ^ e) x.magnitude with below | same | above
  · have gap := parts.le_gap x.isBinary below
    rw [← FiniteDouble.magnitude] at gap
    rw [abs_of_pos (sub_pos.mpr below)] at within
    norm_num [leadingUnit] at gap step_le
    linarith
  · exact same
  · have gap := x.isBinary.le_gap parts above
    rw [← FiniteDouble.magnitude] at gap
    rw [abs_of_neg (sub_neg.mpr above)] at within
    norm_num [leadingUnit] at gap step_le
    linarith

/-! ## The shortest decimal -/

theorem readsBack_nearest_seventeen {x : FiniteDouble} (pos : 0 < x.magnitude) :
    x.readsBack (nearest 17 x.magnitude) = true := by
  obtain ⟨value_pos, rounds⟩ := toBinary_nearest_seventeen pos
  rw [FiniteDouble.readsBack, decide_eq_true_eq, toDouble_eq_nearest,
    Double.nearest_eq_finite_iff value_pos]
  exact ⟨rfl, rounds.symm⟩

theorem toDouble_shortest {x : FiniteDouble} (pos : 0 < x.magnitude) :
    x.shortest.toDouble x.negative = .finite x := by
  have reads (d : Decimal) (back : x.readsBack d = true) :
      d.normalize.toDouble x.negative = .finite x := by
    rw [toDouble_congr (value_normalize d)]
    exact of_decide_eq_true back
  rw [FiniteDouble.shortest]
  -- what the search finds has been read back, and seventeen digits always are
  apply reads
  cases found : (List.range 17).findSome? fun count =>
      (neighbours (count + 1) x.magnitude).find? x.readsBack with
  | none => exact readsBack_nearest_seventeen pos
  | some d =>
    obtain ⟨count, _, first⟩ := List.exists_of_findSome?_eq_some found
    exact List.find?_some first

/-! ## Rounding twice -/

/-- Two multiples of a step that are less than a step apart are equal. -/
theorem multiples_eq {step : Rat} (pos : 0 < step) {j k : Int}
    (close : |j * step - k * step| < step) : j = k := by
  rw [← sub_mul, abs_mul, abs_of_pos pos] at close
  have lt : |(j : Rat) - k| < 1 := by
    by_contra far
    have product := mul_le_mul_of_nonneg_right (not_lt.mp far) pos.le
    linarith
  have integers : |j - k| < 1 := by exact_mod_cast lt
  exact sub_eq_zero.mp (Int.abs_lt_one_iff.mp integers)

/-- What rounds to a double is within half a step of the double's binade. -/
theorem abs_sub_le_of_toBinary {y : FiniteDouble} {v : Rat} (pos : 0 < v)
    (rounds : toBinary v = y.magnitude) : |y.magnitude - v| ≤ (2 : Rat) ^ y.exponent / 2 := by
  have half := abs_sub_toGrid_le (binaryStep_pos v) v
  have place := two_zpow_le (y.isBinary.binaryPlace_le pos rounds)
  rw [← toBinary, rounds, abs_sub_comm] at half
  rw [← binaryStep] at place
  linarith

/-- On a grid coarser than the doubles around a normal one, the point that rounds to it is the point
nearest to it. -/
theorem toGrid_eq_of_normal {y : FiniteDouble} (normal : leadingUnit ≤ y.mantissa) {step : Rat}
    (step_pos : 0 < step) (coarse : y.magnitude < step * 10 ^ 15) {k : Int}
    (point_pos : 0 < k * step) (rounds : toBinary (k * step) = y.magnitude) :
    toGrid step y.magnitude = k * step := by
  have unit_pos := two_zpow_pos y.exponent
  have unit_lt : (2 : Rat) ^ y.exponent < step := by
    have leading : (leadingUnit : Rat) ≤ y.mantissa := by exact_mod_cast normal
    have product := mul_le_mul_of_nonneg_right leading unit_pos.le
    rw [← FiniteDouble.magnitude] at product
    norm_num [leadingUnit] at product coarse
    linarith
  -- both points are so close to the double that they are less than a step apart
  have same : roundEven (y.magnitude / step) = k := by
    apply multiples_eq step_pos
    rw [← toGrid]
    have triangle := abs_sub_le (toGrid step y.magnitude) y.magnitude (k * step)
    have nearer := abs_sub_toGrid_le_abs step_pos y.magnitude k
    have within := abs_sub_le_of_toBinary point_pos rounds
    rw [abs_sub_comm _ y.magnitude] at triangle
    linarith
  rw [toGrid, same]

/-- A magnitude within half a step of a double of the least binade stays in that binade. -/
theorem binaryPlace_eq_of_least {y : FiniteDouble} (least : y.exponent = leastExponent)
    {v : Rat} (pos : 0 < v) (within : |y.magnitude - v| ≤ (2 : Rat) ^ y.exponent / 2) :
    binaryPlace v = y.exponent := by
  have unit_pos := two_zpow_pos y.exponent
  have le_top : y.magnitude ≤ (2 * leadingUnit - 1) * (2 : Rat) ^ y.exponent := by
    have lt_top : (y.mantissa : Rat) + 1 ≤ 2 * leadingUnit := by exact_mod_cast y.isBinary.1
    exact mul_le_mul_of_nonneg_right (by linarith) unit_pos.le
  have interval := abs_le.mp within
  rcases (leastExponent_le_binaryPlace v).lt_or_eq with above | equal
  · -- the next binade starts half a step too high
    have first := steps_le pos above
    have step_le : 2 * (2 : Rat) ^ y.exponent ≤ binaryStep v := by
      rw [binaryStep, ← two_zpow_succ, least]
      exact two_zpow_le above
    norm_num [leadingUnit] at first le_top
    linarith
  · rw [least, equal]

/-- In the least binade a magnitude rounds to a double if one that is no nearer to it does. -/
theorem toBinary_eq_of_least {y : FiniteDouble} (least : y.exponent = leastExponent)
    (pos : 0 < y.magnitude) {v w : Rat} (v_pos : 0 < v) (rounds : toBinary v = y.magnitude)
    (closer : |y.magnitude - w| ≤ |y.magnitude - v|) : 0 < w ∧ toBinary w = y.magnitude := by
  have unit_pos := two_zpow_pos y.exponent
  have within := abs_sub_le_of_toBinary v_pos rounds
  have interval := abs_le.mp (closer.trans within)
  have unit_le : (2 : Rat) ^ y.exponent ≤ y.magnitude := by
    have one_le : (1 : Rat) ≤ y.mantissa := by exact_mod_cast y.magnitude_pos_iff.mp pos
    exact le_mul_of_one_le_left unit_pos.le one_le
  have w_pos : 0 < w := by linarith
  refine ⟨w_pos, ?_⟩
  rw [toBinary, binaryStep, binaryPlace_eq_of_least least v_pos within] at rounds
  rw [toBinary, binaryStep, binaryPlace_eq_of_least least w_pos (closer.trans within)]
  refine toGrid_eq_of_abs_le unit_pos (k := y.mantissa) rounds ?_
  rw [abs_sub_comm, abs_sub_comm v]
  exact_mod_cast closer

/-- Where a point of a grid rounds to a double, the point nearest to the double does too: on a grid
coarser than the doubles it is the same point, and among the subnormal doubles a point that is no
further away. -/
theorem toBinary_toGrid {y : FiniteDouble} (pos : 0 < y.magnitude) {step : Rat}
    (step_pos : 0 < step) (coarse : y.magnitude < step * 10 ^ 15) {k : Int}
    (point_pos : 0 < k * step) (rounds : toBinary (k * step) = y.magnitude) :
    0 < toGrid step y.magnitude ∧ toBinary (toGrid step y.magnitude) = y.magnitude := by
  rcases y.isBinary.2.2 with normal | least
  · rw [toGrid_eq_of_normal normal step_pos coarse point_pos rounds]
    exact ⟨point_pos, rounds⟩
  · have nearer := abs_sub_toGrid_le_abs step_pos y.magnitude k
    exact toBinary_eq_of_least least pos point_pos rounds nearer

/-- A double that some decimal reads to, with so many digits or fewer, is read back from its own
nearest decimal with so many digits. -/
theorem toBinary_nearest {digits : Nat} (few : digits ≤ 14) {y : FiniteDouble}
    (pos : 0 < y.magnitude) {d : Decimal} (coefficient_pos : 0 < d.coefficient)
    (short : d.coefficient ≤ 10 ^ (digits + 1)) (rounds : toBinary d.value = y.magnitude) :
    0 < (nearest (digits + 1) y.magnitude).value ∧
      toBinary (nearest (digits + 1) y.magnitude).value = y.magnitude := by
  have step_pos := ten_zpow_pos (lastPlace (digits + 1) y.magnitude)
  have coarse : y.magnitude < (10 : Rat) ^ lastPlace (digits + 1) y.magnitude * 10 ^ 15 := by
    have power : (10 : Rat) ^ (digits + 1) ≤ 10 ^ 15 := pow_le_pow_right₀ (by norm_num) (by omega)
    exact (lt_lastPlace_mul _ _).trans_le (mul_le_mul_of_nonneg_left power step_pos.le)
  have value_pos' := value_pos coefficient_pos
  rw [value_nearest _ pos]
  obtain ⟨k, same | ⟨above, below⟩⟩ := exists_grid_between (p := d.exponent) pos short
  · rw [value, ← same] at rounds value_pos'
    exact toBinary_toGrid pos step_pos coarse value_pos' rounds
  · -- the grid point lies between the decimal and the double, so it rounds to the double as well
    have point_pos := value_pos'.trans_le above
    refine toBinary_toGrid pos step_pos coarse point_pos (le_antisymm ?_ ?_)
    · have monotone := toBinary_mono point_pos below
      rwa [y.toBinary_magnitude pos] at monotone
    · have monotone := toBinary_mono value_pos' above
      rwa [rounds] at monotone

end DeskCalculator
