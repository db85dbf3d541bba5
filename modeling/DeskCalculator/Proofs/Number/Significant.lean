import DeskCalculator.Proofs.Number.ReadBack

/-!
# Significant digits

A positive number rounded to significant digits is the integer nearest to it in units of its last
place. Rounding keeps the order of numbers and does not carry them past a power of ten, and what is
rounded up to a power of ten with some digits is rounded up to it with fewer digits too.
-/
namespace DeskCalculator

namespace Decimal

/-- The decimal is a positive number rounded to so many significant digits: in units of its last
place it is the nearest integer, of two equally near ones the even. -/
structure Rounds (digits : Nat) (x : Rat) (d : Decimal) : Prop where
  leading : (10 : Rat) ^ (d.exponent + digits - 1) ≤ x
  below : x < (10 : Rat) ^ (d.exponent + digits)
  near : IsNearest (x / (10 : Rat) ^ d.exponent) d.coefficient

theorem rounds_nearest (digits : Nat) {x : Rat} (pos : 0 < x) :
    (nearest digits x).Rounds digits x where
  leading := by
    have exponent : lastPlace digits x + digits - 1 = floorLog 10 x := by
      simp only [lastPlace]
      omega
    rw [nearest, exponent]
    exact zpow_floorLog_ten_le pos
  below := by
    have exponent : lastPlace digits x + digits = floorLog 10 x + 1 := by
      simp only [lastPlace]
      omega
    rw [nearest, exponent]
    exact lt_zpow_floorLog_ten x
  near := by
    have nonneg := roundEven_nonneg (div_pos pos (ten_zpow_pos (lastPlace digits x))).le
    rw [nearest, Int.toNat_of_nonneg nonneg]
    exact isNearest_roundEven _

theorem Rounds.eq_nearest {digits : Nat} {x : Rat} {d : Decimal} (pos : 0 < x)
    (rounds : d.Rounds digits x) : d = nearest digits x := by
  -- the bounds on the number fix the last place, and in units of it only one integer is nearest
  have place : d.exponent = lastPlace digits x := by
    have lower := (le_floorLog_iff (show 2 ≤ 10 by decide) pos _).mpr
      (by exact_mod_cast rounds.leading)
    have upper := (zpow_lt_zpow_iff_right₀ (show (1 : Rat) < 10 by norm_num)).mp
      ((zpow_floorLog_ten_le pos).trans_lt rounds.below)
    simp only [lastPlace]
    omega
  have coefficient := roundEven_eq_iff.mpr rounds.near
  rw [place] at coefficient
  obtain ⟨c, e⟩ := d
  simp only at place coefficient
  rw [nearest, coefficient, place, Int.toNat_natCast]

/-! ## Powers of ten -/

theorem zpow_le_nearest (digits : Nat) {x : Rat} (pos : 0 < x) {k : Int}
    (le : (10 : Rat) ^ k ≤ x) : (10 : Rat) ^ k ≤ (nearest (digits + 1) x).value := by
  have step_pos := ten_zpow_pos (lastPlace (digits + 1) x)
  have order : k ≤ floorLog 10 x :=
    (le_floorLog_iff (show 2 ≤ 10 by decide) pos k).mpr (by exact_mod_cast le)
  -- the first power of ten below the number is a point of its grid
  have fixed := toGrid_mul step_pos ((10 ^ digits : Nat) : Int)
  have monotone := toGrid_mono step_pos (lastPlace_mul_le digits pos)
  push_cast at fixed
  rw [mul_comm] at monotone
  rw [fixed, ← value_nearest _ pos] at monotone
  refine le_trans ?_ monotone
  rw [mul_comm, ← zpow_natCast, ← zpow_add₀ (by norm_num)]
  refine ten_zpow_le ?_
  simp only [lastPlace]
  push_cast
  omega

theorem nearest_le_zpow (digits : Nat) {x : Rat} (pos : 0 < x) {k : Int}
    (lt : x < (10 : Rat) ^ k) : (nearest digits x).value ≤ (10 : Rat) ^ k := by
  have coefficient : ((nearest digits x).coefficient : Rat) ≤ 10 ^ digits := by
    exact_mod_cast nearest_coefficient_le digits x
  have order : floorLog 10 x < k :=
    (zpow_lt_zpow_iff_right₀ (by norm_num)).mp ((zpow_floorLog_ten_le pos).trans_lt lt)
  calc (nearest digits x).value
      ≤ 10 ^ digits * (10 : Rat) ^ lastPlace digits x :=
        mul_le_mul_of_nonneg_right coefficient (ten_zpow_pos _).le
    _ = (10 : Rat) ^ (floorLog 10 x + 1) := by
        rw [← zpow_natCast, ← zpow_add₀ (by norm_num), lastPlace]
        congr 1
        ring
    _ ≤ (10 : Rat) ^ k := ten_zpow_le order

theorem value_nearest_mono (digits : Nat) {x y : Rat} (pos : 0 < x) (le : x ≤ y) :
    (nearest (digits + 1) x).value ≤ (nearest (digits + 1) y).value := by
  have y_pos := pos.trans_le le
  rcases (floorLog_mono (show 2 ≤ 10 by decide) pos le).eq_or_lt with same | lower
  · rw [value_nearest _ pos, value_nearest _ y_pos, lastPlace, lastPlace, same]
    exact toGrid_mono (ten_zpow_pos _) le
  · -- a power of ten lies between numbers of different orders
    have upper := nearest_le_zpow (digits + 1) pos (lt_zpow_floorLog_ten x)
    have power : (10 : Rat) ^ (floorLog 10 x + 1) ≤ y :=
      (ten_zpow_le (Int.add_one_le_iff.mpr lower)).trans (zpow_floorLog_ten_le y_pos)
    exact upper.trans (zpow_le_nearest digits y_pos power)

/-- What is rounded up to a power of ten is so with fewer digits too. -/
theorem zpow_le_nearest_of_lt {few many : Nat} (lt : few < many) {x : Rat} (pos : 0 < x) {k : Int}
    (reached : (10 : Rat) ^ k ≤ (nearest (many + 1) x).value) :
    (10 : Rat) ^ k ≤ (nearest (few + 1) x).value := by
  rcases le_or_gt ((10 : Rat) ^ k) x with above | below
  · exact zpow_le_nearest few pos above
  · -- the number is of the order below the power, or it would not have been rounded up so far
    have order : floorLog 10 x + 1 = k := by
      have upper := (zpow_lt_zpow_iff_right₀ (show (1 : Rat) < 10 by norm_num)).mp
        ((zpow_floorLog_ten_le pos).trans_lt below)
      have lower := (zpow_le_zpow_iff_right₀ (show (1 : Rat) < 10 by norm_num)).mp
        (reached.trans (nearest_le_zpow (many + 1) pos (lt_zpow_floorLog_ten x)))
      omega
    have step_pos := ten_zpow_pos (lastPlace (few + 1) x)
    have finer : (10 : Rat) ^ lastPlace (many + 1) x * 10 ≤ (10 : Rat) ^ lastPlace (few + 1) x := by
      rw [← zpow_add_one₀ (by norm_num)]
      refine ten_zpow_le ?_
      simp only [lastPlace]
      push_cast
      omega
    -- the power is a point of the coarser grid, and much nearer than its step
    have power : (10 : Rat) ^ k =
        ((10 ^ (few + 1) : Nat) : Int) * (10 : Rat) ^ lastPlace (few + 1) x := by
      push_cast
      rw [← zpow_natCast, ← zpow_add₀ (by norm_num), lastPlace, ← order]
      congr 1
      push_cast
      ring
    have close : |x - (10 : Rat) ^ k| ≤ (10 : Rat) ^ lastPlace (few + 1) x / 20 := by
      have half := (abs_le.mp (abs_sub_nearest_le (many + 1) pos)).1
      rw [abs_of_neg (sub_neg.mpr below)]
      linarith
    have nearer := abs_sub_toGrid_le_abs step_pos x ((10 ^ (few + 1) : Nat) : Int)
    rw [← power] at nearer
    have triangle := abs_sub_le (toGrid ((10 : Rat) ^ lastPlace (few + 1) x) x) x ((10 : Rat) ^ k)
    rw [abs_sub_comm _ x] at triangle
    have same := multiples_eq step_pos (j := roundEven (x / (10 : Rat) ^ lastPlace (few + 1) x))
      (k := ((10 ^ (few + 1) : Nat) : Int)) (by rw [← power, ← toGrid]; linarith)
    rw [value_nearest _ pos, toGrid, same, power]

end Decimal

end DeskCalculator
