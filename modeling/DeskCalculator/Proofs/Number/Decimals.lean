import DeskCalculator.Number.Shortest
import DeskCalculator.Proofs.Number.Nearest

/-!
# Decimals and doubles

A decimal becomes the double nearest to its value, however large or small it is, so only the value
of a decimal counts. Rounding to significant digits is rounding to a grid; no decimal with so many
digits is nearer than the one it gives.
-/
namespace DeskCalculator

theorem ten_zpow_pos (k : Int) : (0 : Rat) < (10 : Rat) ^ k := zpow_pos (by norm_num) k

theorem ten_zpow_le {j k : Int} (le : j ≤ k) : (10 : Rat) ^ j ≤ (10 : Rat) ^ k :=
  zpow_le_zpow_right₀ (by norm_num) le

theorem mul_zpow_le_of_mul_pow_le {a b c d m n : Nat} (le : a * b ^ m ≤ c * d ^ n) :
    (a : Rat) * (b : Rat) ^ (m : Int) ≤ (c : Rat) * (d : Rat) ^ (n : Int) := by
  rw [zpow_natCast, zpow_natCast]
  exact_mod_cast le

theorem zpow_le_of_pow_le {a b m n : Nat} (le : a ^ m ≤ b ^ n) :
    (a : Rat) ^ (m : Int) ≤ (b : Rat) ^ (n : Int) := by
  have product : 1 * a ^ m ≤ 1 * b ^ n := by rwa [one_mul, one_mul]
  have cast := mul_zpow_le_of_mul_pow_le product
  rwa [Nat.cast_one, one_mul, one_mul] at cast

/-! ## Magnitudes beyond the doubles -/

namespace Double

theorem nearest_zero (negative : Bool) : nearest negative 0 = .finite (.zero negative) := rfl

theorem nearest_ne_nan (negative : Bool) (v : Rat) : nearest negative v ≠ .nan := by
  have parts (mantissa : Nat) (exponent : Int) : ofParts negative mantissa exponent ≠ .nan := by
    rw [ofParts]
    split <;> simp
  rw [nearest]
  split
  · simp
  · dsimp only
    split <;> exact parts _ _

/-- A magnitude is beyond the doubles where it has `2 ^ 52` steps above the greatest exponent. -/
theorem nearest_of_large (negative : Bool) {v : Rat} {f : Int} (above : greatestExponent < f)
    (large : (2 : Rat) ^ (f + 52) ≤ v) : nearest negative v = .infinite negative := by
  have pos : 0 < v := (two_zpow_pos _).trans_le large
  obtain ⟨m, e, parts, value, rounds⟩ := exists_nearest_eq_ofParts pos
  have first : IsBinary leadingUnit f := by
    simp only [IsBinary, leadingUnit, leastExponent, greatestExponent] at *
    omega
  have beyond : greatestExponent < e := by
    by_contra inside
    -- rounding is monotone, so a double below the binade of `f` cannot come out
    have monotone := toBinary_mono (two_zpow_pos _) large
    rw [← leadingUnit_mul_zpow, first.toBinary_eq (by decide), value] at monotone
    have below := parts.lt_steps
    have step : 2 * (2 : Rat) ^ e ≤ (2 : Rat) ^ f := by
      rw [← two_zpow_succ]
      exact two_zpow_le (by omega)
    norm_num [leadingUnit] at monotone below
    linarith
  rw [rounds, ofParts, dif_neg]
  intro canonical
  exact absurd ((canonicalParts_iff _ _).mp canonical).2 (not_le.mpr beyond)

theorem nearest_of_small (negative : Bool) {v : Rat} (pos : 0 < v)
    (small : 2 * v < (2 : Rat) ^ leastExponent) :
    nearest negative v = .finite (.zero negative) := by
  have step_pos := two_zpow_pos leastExponent
  have zero : toGrid ((2 : Rat) ^ leastExponent) v = 0 := by
    have rounds : roundEven (v / (2 : Rat) ^ leastExponent) = 0 := by
      refine roundEven_eq_iff.mpr (.inl ?_)
      rw [Int.cast_zero, sub_zero, abs_of_pos (div_pos pos step_pos), div_lt_iff₀ step_pos]
      linarith
    rw [toGrid, rounds, Int.cast_zero, zero_mul]
  have place : binaryPlace v = leastExponent := by
    rcases (leastExponent_le_binaryPlace v).lt_or_eq with normal | least
    · -- a normal magnitude would have at least `2 ^ 52` steps
      have first := steps_le pos normal
      have step := two_zpow_le normal.le
      rw [← binaryStep] at step
      norm_num [leadingUnit] at first
      linarith
    · exact least.symm
  rw [nearest_eq_finite_iff pos, toBinary, binaryStep, place, zero]
  exact ⟨rfl, FiniteDouble.magnitude_zero negative⟩

end Double

namespace Decimal

/-! ## Values -/

theorem value_pos {d : Decimal} (pos : 0 < d.coefficient) : 0 < d.value :=
  mul_pos (by exact_mod_cast pos) (ten_zpow_pos _)

theorem zpow_order_le {d : Decimal} (pos : 0 < d.coefficient) :
    (10 : Rat) ^ d.order ≤ d.value := by
  have lower := Nat.pow_log_le_self 10 pos.ne'
  have bound : (10 : Rat) ^ ((Nat.log 10 d.coefficient : Nat) : Int) ≤ d.coefficient := by
    rw [zpow_natCast]
    exact_mod_cast lower
  rw [order, floorLogNat_eq_log (by decide) pos, zpow_add₀ (by norm_num), mul_comm, value]
  exact mul_le_mul_of_nonneg_right bound (ten_zpow_pos _).le

theorem lt_zpow_order {d : Decimal} (pos : 0 < d.coefficient) :
    d.value < (10 : Rat) ^ (d.order + 1) := by
  have upper : d.coefficient < 10 ^ (Nat.log 10 d.coefficient + 1) :=
    Nat.lt_pow_succ_log_self (by decide) _
  have bound : (d.coefficient : Rat) <
      (10 : Rat) ^ ((Nat.log 10 d.coefficient + 1 : Nat) : Int) := by
    rw [zpow_natCast]
    exact_mod_cast upper
  have exponent : d.order + 1 = ((Nat.log 10 d.coefficient + 1 : Nat) : Int) + d.exponent := by
    rw [order, floorLogNat_eq_log (by decide) pos]
    push_cast
    ring
  rw [exponent, zpow_add₀ (by norm_num), value]
  exact mul_lt_mul_of_pos_right bound (ten_zpow_pos _)

theorem toDouble_eq_nearest (negative : Bool) (d : Decimal) :
    d.toDouble negative = .nearest negative d.value := by
  unfold toDouble
  -- the two shortcuts of the conversion agree with rounding the exact value
  split_ifs with zero large small
  · rw [value, zero, Nat.cast_zero, zero_mul, Double.nearest_zero]
  · have power : (2 : Rat) ^ ((972 : Int) + 52) ≤ (10 : Rat) ^ (311 : Int) :=
      zpow_le_of_pow_le (a := 2) (b := 10) (m := 1024) (n := 311) (by decide +kernel)
    have order_le := ten_zpow_le (Int.add_one_le_iff.mpr large)
    have value_le := power.trans (order_le.trans (zpow_order_le (Nat.pos_of_ne_zero zero)))
    exact (Double.nearest_of_large negative (by decide) value_le).symm
  · have pos := Nat.pos_of_ne_zero zero
    have power : (10 : Rat) ^ (-330 : Int) ≤ (2 : Rat) ^ (leastExponent - 2) := by
      have reciprocal : (2 : Rat) ^ (1076 : Int) ≤ (10 : Rat) ^ (330 : Int) :=
        zpow_le_of_pow_le (a := 2) (b := 10) (m := 1076) (n := 330) (by decide +kernel)
      rw [show leastExponent - 2 = -1076 from rfl, zpow_neg, zpow_neg]
      exact inv_anti₀ (two_zpow_pos 1076) reciprocal
    have quarter : (2 : Rat) ^ leastExponent = 4 * (2 : Rat) ^ (leastExponent - 2) := by
      rw [show (4 : Rat) = (2 : Rat) ^ (2 : Int) by norm_num, ← zpow_add₀ (by norm_num)]
      rfl
    have order_le := ten_zpow_le (Int.add_one_le_iff.mpr small)
    have below := (lt_zpow_order pos).trans_le (order_le.trans power)
    have step_pos := two_zpow_pos (leastExponent - 2)
    exact (Double.nearest_of_small negative (value_pos pos) (by linarith)).symm
  · rfl

theorem toDouble_congr {d d' : Decimal} (same : d.value = d'.value) (negative : Bool) :
    d.toDouble negative = d'.toDouble negative := by
  rw [toDouble_eq_nearest, toDouble_eq_nearest, same]

theorem value_normalize (d : Decimal) : d.normalize.value = d.value := by
  induction d using normalize.induct with
  | case1 d trailing ih =>
    -- a trailing zero moves from the coefficient to the exponent
    have factor : d.coefficient = d.coefficient / 10 * 10 := by omega
    have cast : (d.coefficient : Rat) = (d.coefficient / 10 : Nat) * 10 := by
      exact_mod_cast factor
    rw [normalize, if_pos trailing, ih, value, value, zpow_add₀ (by norm_num), zpow_one, cast]
    ring
  | case2 d clean => rw [normalize, if_neg clean]

/-! ## Rounding to significant digits -/

/-- The value of a number rounded to significant digits is the nearest on the grid of its last
place. -/
theorem value_nearest (digits : Nat) {x : Rat} (pos : 0 < x) :
    (nearest digits x).value = toGrid ((10 : Rat) ^ lastPlace digits x) x := by
  -- the coefficient is a natural number, so nothing is cut off
  have nonneg := roundEven_nonneg (div_pos pos (ten_zpow_pos (lastPlace digits x))).le
  have cast : (((roundEven (x / (10 : Rat) ^ lastPlace digits x)).toNat : Nat) : Rat) =
      roundEven (x / (10 : Rat) ^ lastPlace digits x) := by
    exact_mod_cast Int.toNat_of_nonneg nonneg
  rw [value, nearest, toGrid, cast]

theorem zpow_floorLog_ten_le {x : Rat} (pos : 0 < x) : (10 : Rat) ^ floorLog 10 x ≤ x := by
  exact_mod_cast zpow_floorLog_le (show 2 ≤ 10 by decide) pos

theorem lt_zpow_floorLog_ten (x : Rat) : x < (10 : Rat) ^ (floorLog 10 x + 1) := by
  exact_mod_cast lt_zpow_floorLog (show 2 ≤ 10 by decide) x

/-- The last place of a number is at most its `10 ^ (digits - 1)`-th part. -/
theorem lastPlace_mul_le (digits : Nat) {x : Rat} (pos : 0 < x) :
    (10 : Rat) ^ lastPlace (digits + 1) x * 10 ^ digits ≤ x := by
  have power : (10 : Rat) ^ lastPlace (digits + 1) x * 10 ^ digits =
      (10 : Rat) ^ floorLog 10 x := by
    rw [← zpow_natCast, ← zpow_add₀ (by norm_num), lastPlace]
    congr 1
    push_cast
    ring
  rw [power]
  exact zpow_floorLog_ten_le pos

theorem lt_lastPlace_mul (digits : Nat) (x : Rat) :
    x < (10 : Rat) ^ lastPlace digits x * 10 ^ digits := by
  have power : (10 : Rat) ^ lastPlace digits x * 10 ^ digits =
      (10 : Rat) ^ (floorLog 10 x + 1) := by
    rw [← zpow_natCast, ← zpow_add₀ (by norm_num), lastPlace]
    congr 1
    ring
  rw [power]
  exact lt_zpow_floorLog_ten x

theorem abs_sub_nearest_le (digits : Nat) {x : Rat} (pos : 0 < x) :
    |x - (nearest digits x).value| ≤ (10 : Rat) ^ lastPlace digits x / 2 := by
  rw [value_nearest digits pos]
  exact abs_sub_toGrid_le (ten_zpow_pos _) x

/-- A rounded number is within the twentieth part of the number, so it keeps its sign. -/
theorem abs_sub_nearest_le_part {digits : Nat} (some_digit : 1 ≤ digits) {x : Rat} (pos : 0 < x) :
    |x - (nearest (digits + 1) x).value| ≤ x / 20 := by
  have step_pos := ten_zpow_pos (lastPlace (digits + 1) x)
  have close := abs_sub_nearest_le (digits + 1) pos
  have step_le := lastPlace_mul_le digits pos
  have ten_le : (10 : Rat) ^ 1 ≤ 10 ^ digits := pow_le_pow_right₀ (by norm_num) some_digit
  have product := mul_le_mul_of_nonneg_left ten_le step_pos.le
  linarith

theorem nearest_value_pos {digits : Nat} (some_digit : 1 ≤ digits) {x : Rat} (pos : 0 < x) :
    0 < (nearest (digits + 1) x).value := by
  have close := abs_le.mp (abs_sub_nearest_le_part some_digit pos)
  linarith

theorem nearest_coefficient_pos {digits : Nat} (some_digit : 1 ≤ digits) {x : Rat} (pos : 0 < x) :
    0 < (nearest (digits + 1) x).coefficient := by
  rcases Nat.eq_zero_or_pos (nearest (digits + 1) x).coefficient with zero | coefficient_pos
  · have value_pos := nearest_value_pos some_digit pos
    rw [value, zero, Nat.cast_zero, zero_mul] at value_pos
    exact absurd value_pos (lt_irrefl 0)
  · exact coefficient_pos

/-- A rounded number has no more digits than it was rounded to, or is the next power of ten. -/
theorem nearest_coefficient_le (digits : Nat) (x : Rat) :
    (nearest digits x).coefficient ≤ 10 ^ digits := by
  have step_pos := ten_zpow_pos (lastPlace digits x)
  have below : x / (10 : Rat) ^ lastPlace digits x ≤ ((10 ^ digits : Nat) : Int) := by
    rw [div_le_iff₀ step_pos, mul_comm]
    push_cast
    exact (lt_lastPlace_mul digits x).le
  have rounds := roundEven_mono below
  rw [roundEven_intCast] at rounds
  rw [nearest, Int.toNat_le]
  exact rounds

/-- Between a number and a decimal with so many digits there is a point of the number's grid. -/
theorem exists_grid_between {digits : Nat} {x : Rat} (pos : 0 < x) {c : Nat} {p : Int}
    (short : c ≤ 10 ^ (digits + 1)) :
    ∃ k : Int, k * (10 : Rat) ^ lastPlace (digits + 1) x = c * (10 : Rat) ^ p ∨
      c * (10 : Rat) ^ p ≤ k * (10 : Rat) ^ lastPlace (digits + 1) x ∧
        k * (10 : Rat) ^ lastPlace (digits + 1) x ≤ x := by
  rcases le_or_gt (lastPlace (digits + 1) x) p with coarse | fine
  · obtain ⟨k, multiple⟩ := exists_multiple 10 (by decide) coarse c
    exact ⟨k, .inl (by exact_mod_cast multiple.symm)⟩
  · -- a decimal on a finer grid is at most the power of ten below the number
    have cast : ((10 ^ digits : Int) : Rat) = (10 : Rat) ^ digits := by norm_num
    refine ⟨10 ^ digits, .inr ⟨?_, ?_⟩⟩
    · have bound : (c : Rat) ≤ (10 : Rat) ^ (digits + 1) := by exact_mod_cast short
      have step := ten_zpow_le (Int.add_one_le_iff.mpr fine)
      rw [zpow_add₀ (by norm_num), zpow_one] at step
      calc c * (10 : Rat) ^ p ≤ (10 : Rat) ^ (digits + 1) * (10 : Rat) ^ p :=
            mul_le_mul_of_nonneg_right bound (ten_zpow_pos p).le
        _ = (10 : Rat) ^ digits * ((10 : Rat) ^ p * 10) := by ring
        _ ≤ (10 : Rat) ^ digits * (10 : Rat) ^ lastPlace (digits + 1) x := by gcongr
        _ = _ := by rw [cast]
    · rw [cast, mul_comm]
      exact lastPlace_mul_le digits pos

end Decimal

end DeskCalculator
