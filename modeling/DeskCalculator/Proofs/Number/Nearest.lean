import DeskCalculator.Number.Double
import DeskCalculator.Proofs.Number.Grid

/-!
# The nearest double

The doubles of one binade are the multiples of a step, and a magnitude rounds to the nearest
multiple of the step of its own binade. Seen on magnitudes this rounding is monotone, leaves the
doubles where they are, and no double is nearer than the one it gives.
-/
namespace DeskCalculator

/-- The exponent of the step between the doubles around a magnitude. -/
def binaryPlace (v : Rat) : Int := max (floorLog 2 v - 52) leastExponent

def binaryStep (v : Rat) : Rat := (2 : Rat) ^ binaryPlace v

/-- The magnitude that a positive magnitude rounds to, if that is not beyond the doubles. -/
def toBinary (v : Rat) : Rat := toGrid (binaryStep v) v

theorem two_zpow_pos (k : Int) : (0 : Rat) < (2 : Rat) ^ k := zpow_pos (by norm_num) k

theorem two_zpow_le {j k : Int} (le : j ≤ k) : (2 : Rat) ^ j ≤ (2 : Rat) ^ k :=
  zpow_le_zpow_right₀ (by norm_num) le

theorem two_zpow_succ (k : Int) : (2 : Rat) ^ (k + 1) = 2 * (2 : Rat) ^ k := by
  rw [zpow_add₀ (by norm_num), zpow_one, mul_comm]

theorem leadingUnit_mul_zpow (k : Int) :
    (leadingUnit : Rat) * (2 : Rat) ^ k = (2 : Rat) ^ (k + 52) := by
  rw [zpow_add₀ (by norm_num), mul_comm]
  norm_num [leadingUnit]

theorem binaryStep_pos (v : Rat) : 0 < binaryStep v := two_zpow_pos _

theorem leastExponent_le_binaryPlace (v : Rat) : leastExponent ≤ binaryPlace v := le_max_right _ _

theorem binaryPlace_mono {v w : Rat} (pos : 0 < v) (le : v ≤ w) :
    binaryPlace v ≤ binaryPlace w := by
  have exponent := floorLog_mono (Nat.le_refl 2) pos le
  simp only [binaryPlace]
  omega

/-- A magnitude has fewer than `2 ^ 53` steps. -/
theorem lt_steps (v : Rat) : v < 2 * (leadingUnit * binaryStep v) := by
  have upper := lt_zpow_floorLog (Nat.le_refl 2) v
  have bound : floorLog 2 v + 1 ≤ binaryPlace v + 52 + 1 := by
    simp only [binaryPlace]
    omega
  rw [binaryStep, leadingUnit_mul_zpow, ← two_zpow_succ]
  exact upper.trans_le (by exact_mod_cast two_zpow_le bound)

/-- Above the least step a magnitude has at least `2 ^ 52` steps. -/
theorem steps_le {v : Rat} (pos : 0 < v) (normal : leastExponent < binaryPlace v) :
    leadingUnit * binaryStep v ≤ v := by
  have lower := zpow_floorLog_le (Nat.le_refl 2) pos
  have exponent : binaryPlace v + 52 = floorLog 2 v := by
    simp only [binaryPlace] at *
    omega
  rw [binaryStep, leadingUnit_mul_zpow, exponent]
  exact_mod_cast lower

/-! ## Rounding is monotone -/

theorem steps_le_toBinary {v : Rat} (pos : 0 < v) (normal : leastExponent < binaryPlace v) :
    leadingUnit * binaryStep v ≤ toBinary v := by
  have rounds := toGrid_mono (binaryStep_pos v) (steps_le pos normal)
  have fixed := toGrid_mul (binaryStep_pos v) leadingUnit
  rw [toBinary]
  push_cast at fixed
  rwa [fixed] at rounds

theorem toBinary_le_steps (v : Rat) : toBinary v ≤ 2 * (leadingUnit * binaryStep v) := by
  have rounds := toGrid_mono (binaryStep_pos v) (lt_steps v).le
  have fixed := toGrid_mul (binaryStep_pos v) (2 * leadingUnit)
  rw [toBinary]
  push_cast at fixed
  rwa [← mul_assoc, fixed, mul_assoc] at rounds

theorem toBinary_mono {v w : Rat} (pos : 0 < v) (le : v ≤ w) : toBinary v ≤ toBinary w := by
  rcases (binaryPlace_mono pos le).eq_or_lt with same | lower
  · rw [toBinary, toBinary, binaryStep, binaryStep, same]
    exact toGrid_mono (two_zpow_pos _) le
  · -- the binade of `w` starts where that of `v` ends at the latest
    have steps : 2 * binaryStep v ≤ binaryStep w := by
      rw [binaryStep, ← two_zpow_succ]
      exact two_zpow_le lower
    have normal := (leastExponent_le_binaryPlace v).trans_lt lower
    calc toBinary v ≤ 2 * (leadingUnit * binaryStep v) := toBinary_le_steps v
      _ = leadingUnit * (2 * binaryStep v) := by ring
      _ ≤ leadingUnit * binaryStep w := by gcongr
      _ ≤ toBinary w := steps_le_toBinary (pos.trans_le le) normal

theorem toBinary_nonneg {v : Rat} (pos : 0 < v) : 0 ≤ toBinary v := by
  have rounds := toGrid_mono (binaryStep_pos v) pos.le
  have fixed := toGrid_mul (binaryStep_pos v) 0
  simp only [Int.cast_zero, zero_mul] at fixed
  rwa [fixed] at rounds

/-! ## The parts of a magnitude -/

/-- The parts are those of a double, but for the bound on the exponent. -/
def IsBinary (m : Nat) (e : Int) : Prop :=
  m < 2 * leadingUnit ∧ leastExponent ≤ e ∧ (leadingUnit ≤ m ∨ e = leastExponent)

theorem canonicalParts_iff (m : Nat) (e : Int) :
    CanonicalParts m e ↔ IsBinary m e ∧ e ≤ greatestExponent := by
  simp only [CanonicalParts, IsBinary]
  omega

theorem IsBinary.binaryPlace_eq {m : Nat} {e : Int} (parts : IsBinary m e) (pos : 0 < m) :
    binaryPlace (m * (2 : Rat) ^ e) = e := by
  obtain ⟨lt, least_le, normal⟩ := parts
  have step_pos := two_zpow_pos e
  have mantissa_pos : (0 : Rat) < m := by exact_mod_cast pos
  have value_pos : 0 < m * (2 : Rat) ^ e := mul_pos mantissa_pos step_pos
  have upper : ¬ e + 53 ≤ floorLog 2 (m * (2 : Rat) ^ e) := by
    rw [le_floorLog_iff (Nat.le_refl 2) value_pos, not_le]
    have power : ((2 : Nat) : Rat) ^ (e + 53) = 2 * leadingUnit * (2 : Rat) ^ e := by
      rw [mul_assoc, leadingUnit_mul_zpow, ← two_zpow_succ]
      norm_num [add_assoc]
    rw [power]
    have : (m : Rat) < 2 * leadingUnit := by exact_mod_cast lt
    exact mul_lt_mul_of_pos_right this step_pos
  rcases normal with leading | least
  · have lower : e + 52 ≤ floorLog 2 (m * (2 : Rat) ^ e) := by
      rw [le_floorLog_iff (Nat.le_refl 2) value_pos]
      have : (leadingUnit : Rat) ≤ m := by exact_mod_cast leading
      calc ((2 : Nat) : Rat) ^ (e + 52) = leadingUnit * (2 : Rat) ^ e := by
            rw [leadingUnit_mul_zpow]; norm_num
        _ ≤ m * (2 : Rat) ^ e := mul_le_mul_of_nonneg_right this step_pos.le
    simp only [binaryPlace]
    omega
  · simp only [binaryPlace]
    omega

theorem IsBinary.unique {m n : Nat} {e f : Int} (left : IsBinary m e) (right : IsBinary n f)
    (same : (m : Rat) * (2 : Rat) ^ e = n * (2 : Rat) ^ f) : m = n ∧ e = f := by
  -- the exponent is that of the binade; of a zero it is the least one
  have exponents : e = f := by
    rcases Nat.eq_zero_or_pos m with rfl | m_pos
    · have zero : n = 0 := by
        have product : (n : Rat) * (2 : Rat) ^ f = 0 := by rw [← same]; simp
        exact_mod_cast (mul_eq_zero.mp product).resolve_right (two_zpow_pos f).ne'
      simp only [IsBinary, leadingUnit] at left right
      omega
    · have n_pos : 0 < n := by
        have product : (0 : Rat) < n * (2 : Rat) ^ f := by
          rw [← same]
          exact mul_pos (by exact_mod_cast m_pos) (two_zpow_pos e)
        exact_mod_cast pos_of_mul_pos_left product (two_zpow_pos f).le
      rw [← left.binaryPlace_eq m_pos, same, right.binaryPlace_eq n_pos]
  subst exponents
  exact ⟨by exact_mod_cast mul_right_cancel₀ (two_zpow_pos e).ne' same, rfl⟩

theorem IsBinary.toBinary_eq {m : Nat} {e : Int} (parts : IsBinary m e) (pos : 0 < m) :
    toBinary (m * (2 : Rat) ^ e) = m * (2 : Rat) ^ e := by
  have fixed := toGrid_mul (two_zpow_pos e) m
  rw [toBinary, binaryStep, parts.binaryPlace_eq pos]
  exact_mod_cast fixed

theorem IsBinary.lt_steps {m : Nat} {e : Int} (parts : IsBinary m e) :
    m * (2 : Rat) ^ e < 2 * (leadingUnit * (2 : Rat) ^ e) := by
  have bound : (m : Rat) < 2 * leadingUnit := by exact_mod_cast parts.1
  rw [← mul_assoc]
  exact mul_lt_mul_of_pos_right bound (two_zpow_pos _)

/-- A magnitude of a lower binade lies below the first one of a higher binade. -/
theorem IsBinary.lt_first {m : Nat} {e f : Int} (parts : IsBinary m e) (lower : e < f) :
    m * (2 : Rat) ^ e < leadingUnit * (2 : Rat) ^ f := by
  have step : 2 * (2 : Rat) ^ e ≤ (2 : Rat) ^ f := by
    rw [← two_zpow_succ]
    exact two_zpow_le lower
  calc m * (2 : Rat) ^ e < 2 * (leadingUnit * (2 : Rat) ^ e) := parts.lt_steps
    _ = leadingUnit * (2 * (2 : Rat) ^ e) := by ring
    _ ≤ leadingUnit * (2 : Rat) ^ f := by gcongr

/-- No magnitude of a double is nearer than the one rounded to. -/
theorem IsBinary.abs_sub_toBinary_le {m : Nat} {e : Int} (parts : IsBinary m e) {v : Rat}
    (pos : 0 < v) : |v - toBinary v| ≤ |v - m * (2 : Rat) ^ e| := by
  -- a double of this binade or a higher one is a point of the grid, one of a lower binade is
  -- below the first point
  rcases le_or_gt (binaryPlace v) e with coarse | fine
  · obtain ⟨k, multiple⟩ := exists_multiple 2 (by decide) coarse m
    have value : m * (2 : Rat) ^ e = k * binaryStep v := by exact_mod_cast multiple
    rw [value]
    exact abs_sub_toGrid_le_abs (binaryStep_pos v) v k
  · have first := abs_sub_toGrid_le_abs (binaryStep_pos v) v leadingUnit
    have first_le := steps_le pos (parts.2.1.trans_lt fine)
    have below := (parts.lt_first fine).le
    rw [← binaryStep] at below
    push_cast at first
    rw [abs_of_nonneg (sub_nonneg.mpr first_le)] at first
    rw [abs_of_nonneg (sub_nonneg.mpr (below.trans first_le))]
    exact first.trans (by linarith)

/-- Different magnitudes of doubles are at least a `2 ^ 53`-th of the larger one apart. -/
theorem IsBinary.le_gap {m n : Nat} {e f : Int} (small : IsBinary m e) (large : IsBinary n f)
    (lt : m * (2 : Rat) ^ e < n * (2 : Rat) ^ f) :
    n * (2 : Rat) ^ f ≤ 2 * (leadingUnit * (n * (2 : Rat) ^ f - m * (2 : Rat) ^ e)) := by
  have step_pos := two_zpow_pos f
  rcases le_or_gt f e with coarse | fine
  · obtain ⟨k, multiple⟩ := exists_multiple 2 (by decide) coarse m
    have value : m * (2 : Rat) ^ e = k * (2 : Rat) ^ f := by exact_mod_cast multiple
    have steps : (k : Rat) + 1 ≤ n := by
      rw [value, mul_lt_mul_iff_left₀ step_pos] at lt
      exact_mod_cast lt
    have step_le : (2 : Rat) ^ f ≤ n * (2 : Rat) ^ f - m * (2 : Rat) ^ e := by
      rw [value, ← sub_mul]
      exact le_mul_of_one_le_left step_pos.le (by linarith)
    calc n * (2 : Rat) ^ f ≤ 2 * (leadingUnit * (2 : Rat) ^ f) := large.lt_steps.le
      _ ≤ 2 * (leadingUnit * (n * (2 : Rat) ^ f - m * (2 : Rat) ^ e)) := by gcongr
  · -- the smaller one is at least half a step below the first magnitude of the larger one's binade
    have normal : leadingUnit ≤ n := large.2.2.resolve_right (small.2.1.trans_lt fine).ne'
    have lower : 2 * (m * (2 : Rat) ^ e) ≤ (2 * leadingUnit - 1) * (2 : Rat) ^ f := by
      have mantissa : (m : Rat) ≤ 2 * leadingUnit - 1 := by
        have : (m : Rat) + 1 ≤ 2 * leadingUnit := by exact_mod_cast small.1
        linarith
      have step : 2 * (2 : Rat) ^ e ≤ (2 : Rat) ^ f := by
        rw [← two_zpow_succ]
        exact two_zpow_le fine
      calc 2 * (m * (2 : Rat) ^ e) = m * (2 * (2 : Rat) ^ e) := by ring
        _ ≤ (2 * leadingUnit - 1) * (2 : Rat) ^ f :=
            mul_le_mul mantissa step (by linarith [two_zpow_pos e]) (by norm_num [leadingUnit])
    obtain ⟨d, mantissa⟩ := Nat.exists_eq_add_of_le normal
    have excess : (0 : Rat) ≤ d * (2 : Rat) ^ f := mul_nonneg (Nat.cast_nonneg d) step_pos.le
    rw [mantissa]
    push_cast
    norm_num [leadingUnit] at lower ⊢
    linarith

theorem IsBinary.binaryPlace_le {m : Nat} {e : Int} (parts : IsBinary m e) {v : Rat} (pos : 0 < v)
    (rounds : toBinary v = m * (2 : Rat) ^ e) : binaryPlace v ≤ e := by
  by_contra higher
  have first := steps_le_toBinary pos (parts.2.1.trans_lt (not_le.mp higher))
  have below := parts.lt_steps
  have step : 2 * (2 : Rat) ^ e ≤ binaryStep v := by
    rw [binaryStep, ← two_zpow_succ]
    exact two_zpow_le (not_le.mp higher)
  norm_num [leadingUnit] at first below
  linarith

namespace FiniteDouble

theorem isBinary (x : FiniteDouble) : IsBinary x.mantissa x.exponent :=
  ((canonicalParts_iff _ _).mp x.canonical).1

@[simp] theorem magnitude_zero (negative : Bool) : (zero negative).magnitude = 0 := by
  simp [zero, magnitude]

theorem magnitude_nonneg (x : FiniteDouble) : 0 ≤ x.magnitude :=
  mul_nonneg (Nat.cast_nonneg _) (two_zpow_pos _).le

theorem magnitude_pos_iff (x : FiniteDouble) : 0 < x.magnitude ↔ 0 < x.mantissa := by
  rw [magnitude, mul_pos_iff_of_pos_right (two_zpow_pos _), Nat.cast_pos]

theorem toBinary_magnitude (x : FiniteDouble) (pos : 0 < x.magnitude) :
    toBinary x.magnitude = x.magnitude :=
  x.isBinary.toBinary_eq (x.magnitude_pos_iff.mp pos)

/-- A double is its sign and its magnitude. -/
theorem eq_of_magnitude_eq {x y : FiniteDouble} (sign : x.negative = y.negative)
    (same : x.magnitude = y.magnitude) : x = y := by
  obtain ⟨mantissa, exponent⟩ := x.isBinary.unique y.isBinary same
  cases x
  cases y
  simp_all

end FiniteDouble

/-! ## The nearest double -/

namespace Double

theorem ofParts_eq_finite_iff {negative : Bool} {m : Nat} {e : Int} {x : FiniteDouble} :
    ofParts negative m e = .finite x ↔ x.negative = negative ∧ x.mantissa = m ∧ x.exponent = e := by
  unfold ofParts
  split
  · constructor
    · rintro ⟨⟩
      exact ⟨rfl, rfl, rfl⟩
    · rintro ⟨rfl, rfl, rfl⟩
      rfl
  · next outside =>
    constructor
    · intro same
      cases same
    · rintro ⟨rfl, rfl, rfl⟩
      exact absurd x.canonical outside

/-- The nearest double has the parts of the magnitude rounded to. -/
theorem exists_nearest_eq_ofParts {v : Rat} (pos : 0 < v) :
    ∃ m e, IsBinary m e ∧ toBinary v = m * (2 : Rat) ^ e ∧
      ∀ negative, nearest negative v = ofParts negative m e := by
  have step_pos := binaryStep_pos v
  have nonneg : 0 ≤ roundEven (v / binaryStep v) := by
    have product := toBinary_nonneg pos
    exact_mod_cast nonneg_of_mul_nonneg_left product step_pos
  obtain ⟨m, rounds⟩ := Int.eq_ofNat_of_zero_le nonneg
  have value : toBinary v = m * (2 : Rat) ^ binaryPlace v := by
    rw [toBinary, toGrid, rounds]
    rfl
  have le : m ≤ 2 * leadingUnit := by
    have product := toBinary_le_steps v
    rw [value, ← mul_assoc] at product
    exact_mod_cast le_of_mul_le_mul_right product step_pos
  have normal : leadingUnit ≤ m ∨ binaryPlace v = leastExponent := by
    rcases (leastExponent_le_binaryPlace v).lt_or_eq with above | least
    · have product := steps_le_toBinary pos above
      rw [value] at product
      exact .inl (by exact_mod_cast le_of_mul_le_mul_right product step_pos)
    · exact .inr least.symm
  have unfolded (negative : Bool) : nearest negative v =
      if m = 2 * leadingUnit then ofParts negative leadingUnit (binaryPlace v + 1)
      else ofParts negative m (binaryPlace v) := by
    have mantissa : (roundEven (v / (2 : Rat) ^ binaryPlace v)).toNat = m := by
      rw [← binaryStep, rounds]
      rfl
    rw [← mantissa, nearest, if_neg pos.ne']
    rfl
  -- rounding up may carry into the next binade
  rcases le.eq_or_lt with carry | inside
  · refine ⟨leadingUnit, binaryPlace v + 1, ?_, ?_, ?_⟩
    · have := leastExponent_le_binaryPlace v
      simp only [IsBinary, leadingUnit]
      omega
    · rw [value, carry, two_zpow_succ]
      push_cast
      ring
    · intro negative
      rw [unfolded, if_pos carry]
  · refine ⟨m, binaryPlace v, ⟨inside, leastExponent_le_binaryPlace v, normal⟩, value, ?_⟩
    intro negative
    rw [unfolded, if_neg inside.ne]

/-- The nearest double to a positive magnitude is the double of the magnitude it rounds to, if there
is one. -/
theorem nearest_eq_finite_iff {negative : Bool} {v : Rat} (pos : 0 < v) {x : FiniteDouble} :
    nearest negative v = .finite x ↔ x.negative = negative ∧ x.magnitude = toBinary v := by
  obtain ⟨m, e, parts, value, rounds⟩ := exists_nearest_eq_ofParts pos
  rw [rounds, ofParts_eq_finite_iff, value, FiniteDouble.magnitude]
  constructor
  · rintro ⟨sign, rfl, rfl⟩
    exact ⟨sign, rfl⟩
  · rintro ⟨sign, same⟩
    exact ⟨sign, x.isBinary.unique parts same⟩

/-- A magnitude up to that of a double does not round beyond the doubles. -/
theorem exists_nearest_eq_finite (negative : Bool) {v : Rat} (pos : 0 < v) {x : FiniteDouble}
    (le : v ≤ x.magnitude) : ∃ y, nearest negative v = .finite y := by
  obtain ⟨m, e, parts, value, rounds⟩ := exists_nearest_eq_ofParts pos
  have monotone := toBinary_mono pos le
  rw [value, x.toBinary_magnitude (pos.trans_le le)] at monotone
  have within : e ≤ greatestExponent := by
    by_contra beyond
    -- the first magnitude of a higher binade is above every double
    have lower : x.exponent < e := x.canonical.2.2.1.trans_lt (not_le.mp beyond)
    have normal : leadingUnit ≤ m := parts.2.2.resolve_right (x.isBinary.2.1.trans_lt lower).ne'
    have first : (leadingUnit : Rat) * (2 : Rat) ^ e ≤ m * (2 : Rat) ^ e :=
      mul_le_mul_of_nonneg_right (by exact_mod_cast normal) (two_zpow_pos e).le
    exact absurd ((x.isBinary.lt_first lower).trans_le (first.trans monotone)) (lt_irrefl _)
  exact ⟨_, by rw [rounds, ofParts, dif_pos ((canonicalParts_iff m e).mpr ⟨parts, within⟩)]⟩

end Double

end DeskCalculator
