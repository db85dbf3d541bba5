import DeskCalculator.Proofs.Display.Rounding

/-!
# Results that rounding carries beyond the doubles

Ten significant digits are too few at the upper end of the doubles: of the decimals with so many
digits the last one within the doubles is `1797693134e299`, and a result that is nearer to the next
one becomes an infinity when it is rounded for display.
-/
namespace DeskCalculator

namespace Display

open Decimal

/-- The place of the last of ten digits of the largest doubles. -/
def topPlace : Int := 299

/-- Half-way between the last decimal with ten digits within the doubles and the next one. -/
def limit : Rat := 17976931345 / 10 * (10 : Rat) ^ topPlace

def largest : FiniteDouble := ⟨false, 9007199254740991, greatestExponent, by decide⟩

theorem last_le_largest : 1797693134 * (10 : Rat) ^ topPlace ≤ largest.magnitude :=
  mul_zpow_le_of_mul_pow_le (a := 1797693134) (b := 10) (c := 9007199254740991) (d := 2)
    (m := 299) (n := 971) (by decide +kernel)

theorem two_zpow_le_next :
    (2 : Rat) ^ (greatestExponent + 1 + 52) ≤ 1797693135 * (10 : Rat) ^ topPlace := by
  have le := mul_zpow_le_of_mul_pow_le (a := 1) (b := 2) (c := 1797693135) (d := 10)
    (m := 1024) (n := 299) (by decide +kernel)
  rwa [Nat.cast_one, one_mul] at le

theorem two_zpow_le_order :
    (2 : Rat) ^ (greatestExponent + 1 + 52) ≤ (10 : Rat) ^ (topPlace + 10) :=
  zpow_le_of_pow_le (a := 2) (b := 10) (m := 1024) (n := 309) (by decide +kernel)

theorem pos_of_limit_lt {x : FiniteDouble} (beyond : limit < x.magnitude) : 0 < x.magnitude :=
  (mul_pos (by norm_num) (ten_zpow_pos topPlace)).trans beyond

theorem magnitude_lt (x : FiniteDouble) :
    x.magnitude < (2 : Rat) ^ (greatestExponent + 1 + 52) := by
  have lower : x.exponent < greatestExponent + 1 := Int.lt_add_one_of_le x.canonical.2.2.1
  have below := IsBinary.lt_first x.isBinary lower
  rwa [leadingUnit_mul_zpow] at below

theorem lastPlace_le (x : FiniteDouble) (pos : 0 < x.magnitude) :
    lastPlace 10 x.magnitude ≤ topPlace := by
  have lower := zpow_floorLog_ten_le pos
  have order := (lower.trans_lt (magnitude_lt x)).trans_le two_zpow_le_order
  have lt := (zpow_lt_zpow_iff_right₀ (by norm_num)).mp order
  simp only [lastPlace]
  omega

/-- Up to the limit ten digits stay within the doubles. -/
theorem nearest_ten_le {x : FiniteDouble} (pos : 0 < x.magnitude) (le : x.magnitude ≤ limit) :
    (nearest 10 x.magnitude).value ≤ largest.magnitude := by
  refine le_trans ?_ last_le_largest
  have step_pos := ten_zpow_pos topPlace
  rcases (lastPlace_le x pos).eq_or_lt with top | lower
  · -- the tie at the limit goes to the even decimal, the lower one
    have half : roundEven (17976931345 / 10) = 1797693134 := by decide +kernel
    have rounds : roundEven (x.magnitude / (10 : Rat) ^ topPlace) ≤ 1797693134 := by
      rw [← half]
      exact roundEven_mono ((div_le_iff₀ step_pos).mpr le)
    rw [value_nearest 10 pos, top, toGrid]
    exact mul_le_mul_of_nonneg_right (by exact_mod_cast rounds) step_pos.le
  · -- in a lower place ten digits come to a power of ten at most
    have coefficient : ((nearest 10 x.magnitude).coefficient : Rat) ≤ 10 ^ 10 := by
      exact_mod_cast nearest_coefficient_le 10 x.magnitude
    have place := ten_zpow_le (Int.add_one_le_iff.mpr lower)
    rw [zpow_add₀ (by norm_num), zpow_one] at place
    have product := mul_le_mul_of_nonneg_right coefficient
      (ten_zpow_pos (lastPlace 10 x.magnitude)).le
    rw [value]
    norm_num at product
    exact product.trans (by linarith)

/-- Beyond the limit ten digits leave the doubles. -/
theorem le_nearest_ten {x : FiniteDouble} (beyond : limit < x.magnitude) :
    (2 : Rat) ^ (greatestExponent + 1 + 52) ≤ (nearest 10 x.magnitude).value := by
  have step_pos := ten_zpow_pos topPlace
  have scaled := (lt_div_iff₀ step_pos).mpr beyond
  have order : (10 : Rat) ^ (topPlace + 9) < x.magnitude := by
    rw [zpow_add₀ (by norm_num), show (9 : Int) = (9 : Nat) from rfl, zpow_natCast]
    rw [limit] at beyond
    linarith
  have pos := pos_of_limit_lt beyond
  have top : lastPlace 10 x.magnitude = topPlace := by
    have lt := order.trans (lt_zpow_floorLog_ten x.magnitude)
    have exponent := (zpow_lt_zpow_iff_right₀ (by norm_num)).mp lt
    have le := lastPlace_le x pos
    simp only [lastPlace] at le ⊢
    omega
  have rounds : 1797693135 ≤ roundEven (x.magnitude / (10 : Rat) ^ topPlace) := by
    have close := abs_le.mp (abs_sub_roundEven_le (x.magnitude / (10 : Rat) ^ topPlace))
    have above : ((1797693134 : Int) : Rat) < roundEven (x.magnitude / (10 : Rat) ^ topPlace) := by
      push_cast
      linarith
    exact Int.add_one_le_iff.mpr (by exact_mod_cast above)
  rw [value_nearest 10 pos, top, toGrid]
  exact two_zpow_le_next.trans (mul_le_mul_of_nonneg_right (by exact_mod_cast rounds) step_pos.le)

/-- A magnitude beyond the limit is written with an exponent. -/
theorem needsExponent_of_limit_lt {x : FiniteDouble} (beyond : limit < x.magnitude) :
    needsExponent (rounded 12 x) = true := by
  have large : (2 : Rat) ^ (41 : Int) ≤ limit := by
    have power := zpow_le_of_pow_le (a := 2) (b := 10) (m := 41) (n := 299) (by decide +kernel)
    have step_pos := ten_zpow_pos topPlace
    have step : (2 : Rat) ^ (41 : Int) ≤ (10 : Rat) ^ topPlace := power
    rw [limit]
    linarith
  have pos := pos_of_limit_lt beyond
  cases result : rounded 12 x with
  | nan => rfl
  | infinite negative => rfl
  | finite y =>
    obtain ⟨_, value⟩ := (rounded_eq_finite_iff (by decide) pos).mp result
    have part := abs_le.mp (abs_sub_nearest_le_part (show 1 ≤ 11 by decide) pos)
    -- rounding to twelve digits and to a double leaves the magnitude above `2 ^ 40`
    have binary : IsBinary leadingUnit (-12) := ⟨by decide, by decide, .inl le_rfl⟩
    have low : leadingUnit * (2 : Rat) ^ (-12 : Int) ≤ (nearest 12 x.magnitude).value := by
      norm_num [leadingUnit] at large ⊢
      linarith
    have monotone := toBinary_mono (mul_pos (by norm_num [leadingUnit]) (two_zpow_pos _)) low
    rw [binary.toBinary_eq (by decide), ← value] at monotone
    refine decide_eq_true (.inl ?_)
    norm_num [leadingUnit] at monotone
    rw [upperLimit]
    linarith

theorem shown_of_limit_lt {x : FiniteDouble} (beyond : limit < x.magnitude) :
    shown x = .infinite x.negative := by
  rw [shown, needsExponent_of_limit_lt beyond, if_pos rfl, rounded, toDouble_eq_nearest]
  exact Double.nearest_of_large _ (Int.lt_succ _) (le_nearest_ten beyond)

/-- The double written for a result is finite up to the limit, and an infinity beyond it. -/
theorem exists_shown_eq_finite_iff (x : FiniteDouble) :
    (∃ y, shown x = .finite y) ↔ x.magnitude ≤ limit := by
  constructor
  · rintro ⟨y, finite⟩
    by_contra beyond
    rw [shown_of_limit_lt (not_le.mp beyond)] at finite
    cases finite
  · intro le
    by_cases pos : 0 < x.magnitude
    · unfold shown
      split
      · rw [rounded, toDouble_eq_nearest]
        exact Double.exists_nearest_eq_finite x.negative (nearest_value_pos (by decide) pos)
          (nearest_ten_le pos le)
      · next positional =>
        -- only a finite double is written without an exponent
        cases result : rounded 12 x with
        | finite y => exact ⟨y, rfl⟩
        | nan => exact absurd (by rw [result]; rfl) positional
        | infinite negative => exact absurd (by rw [result]; rfl) positional
    · exact ⟨_, shown_of_isZero pos⟩

end Display

end DeskCalculator
