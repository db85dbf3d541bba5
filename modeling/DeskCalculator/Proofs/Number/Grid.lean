import DeskCalculator.Number.Rounding
import Mathlib.Data.Int.Log
import Mathlib.Data.Rat.Floor
import Mathlib.Tactic.Linarith
import Mathlib.Tactic.Positivity
import Mathlib.Tactic.Ring

/-!
# Rounding to a grid

The exponent of a number in a base is its integer logarithm. The nearest integer, and with it the
nearest multiple of a step, is characterized by its distance: it lies at most half a step away, and
where it lies exactly half a step away it is even. That it is monotone and no multiple is nearer
follows from this.
-/
namespace DeskCalculator

/-! ## Logarithms -/

/-- The logarithm in a base lies between twice the one in its square and the next number. -/
private theorem square_log {base n half : Nat} (two_le : 2 ≤ base) (pos : 0 < n)
    (root : half = Nat.log (base * base) n) :
    Nat.log base n = if n / Nat.pow (base * base) half < base then 2 * half else 2 * half + 1 := by
  have one_lt : 1 < base * base := by nlinarith
  -- the number lies between two neighbouring even powers of the base
  have square (k : Nat) : (base * base) ^ k = base ^ (2 * k) := by rw [pow_mul, pow_two]
  have lower : base ^ (2 * half) ≤ n := by
    rw [← square, root]
    exact Nat.pow_log_le_self _ pos.ne'
  have upper : n < base ^ (2 * half + 2) := by
    rw [show 2 * half + 2 = 2 * (half + 1) by ring, ← square, root]
    exact Nat.lt_pow_succ_log_self one_lt n
  -- the test of the recursion tells on which side of the odd power between them
  have half_pos : 0 < base ^ (2 * half) := Nat.pow_pos (by omega)
  have below : n / Nat.pow (base * base) half < base ↔ n < base ^ (2 * half + 1) := by
    rw [Nat.pow_eq, square, Nat.div_lt_iff_lt_mul half_pos, pow_succ, Nat.mul_comm]
  rw [Nat.log_eq_iff (.inr ⟨two_le, pos.ne'⟩)]
  split
  · next small => exact ⟨lower, below.mp small⟩
  · next large => exact ⟨Nat.le_of_not_lt fun small => large (below.mpr small), upper⟩

theorem floorLogNat_eq_log {base n : Nat} (two_le : 2 ≤ base) (pos : 0 < n) :
    floorLogNat base n = Nat.log base n := by
  induction base using floorLogNat.induct n with
  | case1 base bounds half _ ih | case2 base bounds half _ ih =>
    rw [floorLogNat, dif_pos bounds, square_log two_le pos (ih (by nlinarith))]
  | case3 base outside =>
    rw [floorLogNat, dif_neg outside, Nat.log_of_lt (by omega)]

theorem ceilLogNat_eq_clog {base : Nat} (two_le : 2 ≤ base) (n : Nat) :
    ceilLogNat base n = Nat.clog base n := by
  unfold ceilLogNat
  split
  · next small => rw [Nat.clog_of_right_le_one small]
  · next large =>
    -- the predecessor has the logarithm rounded down, one less
    have pos : n - 1 ≠ 0 := by omega
    have lower := Nat.pow_log_le_self base pos
    have upper : n - 1 < base ^ (Nat.log base (n - 1) + 1) := Nat.lt_pow_succ_log_self two_le _
    rw [floorLogNat_eq_log two_le (by omega)]
    apply Nat.le_antisymm
    · exact (Nat.lt_clog_iff_pow_lt two_le).mpr (by omega)
    · exact (Nat.clog_le_iff_le_pow two_le).mpr (by omega)

theorem floorLog_eq_log {base : Nat} (two_le : 2 ≤ base) (x : Rat) :
    floorLog base x = Int.log base x := by
  unfold floorLog
  split
  · next one_le =>
    have floor_pos : 0 < x.floor.toNat := Nat.floor_pos.mpr one_le
    rw [Int.log_of_one_le_right _ one_le, floorLogNat_eq_log two_le floor_pos]
    rfl
  · next below =>
    have ceil_eq : x⁻¹.ceil.toNat = ⌈x⁻¹⌉₊ := by
      rw [Rat.ceil_eq_neg_floor_neg]
      rfl
    rw [Int.log_of_right_le_one _ (le_of_not_ge below), ceilLogNat_eq_clog two_le, ceil_eq]

theorem zpow_floorLog_le {base : Nat} (two_le : 2 ≤ base) {x : Rat} (pos : 0 < x) :
    (base : Rat) ^ floorLog base x ≤ x := by
  rw [floorLog_eq_log two_le]
  exact Int.zpow_log_le_self two_le pos

theorem lt_zpow_floorLog {base : Nat} (two_le : 2 ≤ base) (x : Rat) :
    x < (base : Rat) ^ (floorLog base x + 1) := by
  rw [floorLog_eq_log two_le]
  exact Int.lt_zpow_succ_log_self two_le x

theorem floorLog_mono {base : Nat} (two_le : 2 ≤ base) {x y : Rat} (pos : 0 < x) (le : x ≤ y) :
    floorLog base x ≤ floorLog base y := by
  rw [floorLog_eq_log two_le, floorLog_eq_log two_le]
  exact Int.log_mono_right pos le

theorem le_floorLog_iff {base : Nat} (two_le : 2 ≤ base) {x : Rat} (pos : 0 < x) (k : Int) :
    k ≤ floorLog base x ↔ (base : Rat) ^ k ≤ x := by
  rw [floorLog_eq_log two_le, Int.zpow_le_iff_le_log two_le pos]

/-! ## The nearest integer -/

/-- The integer is at most half a unit away from `x`, and even where it is exactly so far away. -/
def IsNearest (x : Rat) (k : Int) : Prop :=
  |x - k| < 1 / 2 ∨ |x - k| = 1 / 2 ∧ k % 2 = 0

theorem IsNearest.within {x : Rat} {k : Int} (near : IsNearest x k) : |x - k| ≤ 1 / 2 := by
  rcases near with strict | ⟨tie, _⟩
  · exact strict.le
  · exact tie.le

theorem IsNearest.unique {x : Rat} {j k : Int} (hj : IsNearest x j) (hk : IsNearest x k) :
    j = k := by
  have triangle : |(j : Rat) - k| ≤ |x - j| + |x - k| := by
    rw [abs_sub_comm x j]
    exact abs_sub_le (j : Rat) x k
  have close_of_strict : |x - j| + |x - k| < 1 → j = k := by
    intro strict
    have close : |j - k| < 1 := by exact_mod_cast triangle.trans_lt strict
    exact sub_eq_zero.mp (Int.abs_lt_one_iff.mp close)
  rcases hj with hj | ⟨hj, even_j⟩
  · exact close_of_strict (by linarith [hk.within])
  · rcases hk with hk | ⟨hk, even_k⟩
    · exact close_of_strict (by linarith)
    · -- two neighbours, half-way between them, cannot both be even
      have close : |j - k| ≤ 1 := by
        have : |(j : Rat) - k| ≤ 1 := by linarith
        exact_mod_cast this
      have := abs_le.mp close
      omega

theorem isNearest_roundEven (x : Rat) : IsNearest x (roundEven x) := by
  have floor_le : (x.floor : Rat) ≤ x := Int.floor_le x
  have lt_floor : x < x.floor + 1 := Int.lt_floor_add_one x
  unfold roundEven
  dsimp only
  -- down, up, a tie that goes down and a tie that goes up
  split_ifs with down up even
  · left
    rw [abs_lt]
    constructor <;> linarith
  · left
    push_cast
    rw [abs_lt]
    constructor <;> linarith
  · right
    refine ⟨?_, even⟩
    rw [abs_of_nonneg (by linarith)]
    linarith
  · right
    refine ⟨?_, by omega⟩
    push_cast
    rw [abs_of_nonpos (by linarith)]
    linarith

theorem roundEven_eq_iff {x : Rat} {k : Int} : roundEven x = k ↔ IsNearest x k :=
  ⟨fun same => same ▸ isNearest_roundEven x, (isNearest_roundEven x).unique⟩

theorem abs_sub_roundEven_le (x : Rat) : |x - roundEven x| ≤ 1 / 2 :=
  (isNearest_roundEven x).within

theorem roundEven_intCast (k : Int) : roundEven k = k :=
  roundEven_eq_iff.mpr (.inl (by simp))

/-- A number that is no further from an integer than one that rounds to it rounds to it too. -/
theorem roundEven_eq_of_abs_le {x y : Rat} {k : Int} (rounds : roundEven x = k)
    (closer : |y - k| ≤ |x - k|) : roundEven y = k := by
  rw [roundEven_eq_iff] at *
  rcases rounds with strict | ⟨tie, even⟩
  · exact .inl (closer.trans_lt strict)
  · rcases closer.lt_or_eq with strict | same
    · exact .inl (tie ▸ strict)
    · exact .inr ⟨same.trans tie, even⟩

theorem abs_sub_roundEven_le_abs (x : Rat) (k : Int) : |x - roundEven x| ≤ |x - k| := by
  by_contra nearer
  have rounds : roundEven x = k :=
    roundEven_eq_iff.mpr (.inl ((not_le.mp nearer).trans_le (abs_sub_roundEven_le x)))
  rw [rounds] at nearer
  exact nearer le_rfl

theorem roundEven_mono {x y : Rat} (le : x ≤ y) : roundEven x ≤ roundEven y := by
  by_contra descends
  have step : (roundEven y : Rat) + 1 ≤ roundEven x := by
    exact_mod_cast Int.add_one_le_iff.mpr (not_le.mp descends)
  -- integers in falling order leave no room but for the point half-way between them
  have near_x := abs_le.mp (abs_sub_roundEven_le x)
  have near_y := abs_le.mp (abs_sub_roundEven_le y)
  have same : x = y := by linarith
  rw [same] at descends
  exact descends le_rfl

theorem roundEven_nonneg {x : Rat} (nonneg : 0 ≤ x) : 0 ≤ roundEven x := by
  have rounds := roundEven_mono nonneg
  rwa [← Int.cast_zero, roundEven_intCast] at rounds

/-! ## The nearest multiple of a step -/

def toGrid (step x : Rat) : Rat := roundEven (x / step) * step

section Grid

variable {step : Rat} (pos : 0 < step)
include pos

theorem abs_div_sub (x : Rat) (k : Int) : |x / step - k| = |x - k * step| / step := by
  rw [div_sub' pos.ne', abs_div, abs_of_pos pos, mul_comm step]

theorem abs_sub_toGrid_le (x : Rat) : |x - toGrid step x| ≤ step / 2 := by
  have within := abs_sub_roundEven_le (x / step)
  rw [abs_div_sub pos, div_le_iff₀ pos] at within
  rw [toGrid]
  linarith

theorem abs_sub_toGrid_le_abs (x : Rat) (k : Int) : |x - toGrid step x| ≤ |x - k * step| := by
  have nearest := abs_sub_roundEven_le_abs (x / step) k
  rwa [abs_div_sub pos, abs_div_sub pos, div_le_div_iff_of_pos_right pos] at nearest

theorem toGrid_mul (k : Int) : toGrid step (k * step) = k * step := by
  rw [toGrid, mul_div_cancel_right₀ _ pos.ne', roundEven_intCast]

theorem toGrid_mono {x y : Rat} (le : x ≤ y) : toGrid step x ≤ toGrid step y := by
  have rounds := roundEven_mono (div_le_div_of_nonneg_right le pos.le)
  exact mul_le_mul_of_nonneg_right (by exact_mod_cast rounds) pos.le

/-- A number that is no further from a multiple than one that rounds to it rounds to it too. -/
theorem toGrid_eq_of_abs_le {x y : Rat} {k : Int} (rounds : toGrid step x = k * step)
    (closer : |y - k * step| ≤ |x - k * step|) : toGrid step y = k * step := by
  have integer : roundEven (x / step) = k := by
    exact_mod_cast mul_right_cancel₀ pos.ne' rounds
  have scaled : |y / step - k| ≤ |x / step - k| := by
    rw [abs_div_sub pos, abs_div_sub pos]
    exact div_le_div_of_nonneg_right closer pos.le
  rw [toGrid, roundEven_eq_of_abs_le integer scaled]

end Grid

/-- Multiples of a power of the base are multiples of each smaller power. -/
theorem exists_multiple (base : Nat) {j k : Int} (pos : 0 < base) (le : j ≤ k) (m : Int) :
    ∃ n : Int, (m : Rat) * (base : Rat) ^ k = n * (base : Rat) ^ j := by
  refine ⟨m * (base : Int) ^ (k - j).toNat, ?_⟩
  have base_ne : (base : Rat) ≠ 0 := by exact_mod_cast pos.ne'
  have split : (base : Rat) ^ k = (base : Rat) ^ (k - j).toNat * (base : Rat) ^ j := by
    rw [← zpow_natCast, Int.toNat_of_nonneg (by omega), ← zpow_add₀ base_ne]
    congr 1
    omega
  rw [split]
  push_cast
  ring

end DeskCalculator
