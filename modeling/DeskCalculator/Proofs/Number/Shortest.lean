import DeskCalculator.Proofs.Number.ReadBack

/-!
# Decimals that are their own shortest

A decimal without trailing zeros is determined by its value. Of the decimals with at most fifteen
digits only one reads to a given normal double, because they are further apart than the doubles; so
the shortest decimal of the double that such a decimal reads to is the decimal itself, less its
trailing zeros.
-/
namespace DeskCalculator

namespace Decimal

/-! ## Trailing zeros -/

theorem coefficient_pos_iff (d : Decimal) : 0 < d.coefficient ↔ 0 < d.value := by
  rw [value, mul_pos_iff_of_pos_right (ten_zpow_pos _), Nat.cast_pos]

theorem normalize_coefficient_mod {d : Decimal} (pos : 0 < d.coefficient) :
    d.normalize.coefficient % 10 ≠ 0 := by
  induction d using normalize.induct with
  | case1 d trailing ih =>
    rw [normalize, if_pos trailing]
    exact ih (show 0 < d.coefficient / 10 by omega)
  | case2 d clean =>
    rw [normalize, if_neg clean]
    exact fun zero => clean ⟨pos.ne', zero⟩

/-- Of two decimals with the same value the one with the smaller exponent has trailing zeros. -/
theorem coefficient_eq_mul_pow {d e : Decimal} (same : d.value = e.value)
    (le : d.exponent ≤ e.exponent) :
    d.coefficient = e.coefficient * 10 ^ (e.exponent - d.exponent).toNat := by
  have power : (10 : Rat) ^ e.exponent =
      10 ^ (e.exponent - d.exponent).toNat * (10 : Rat) ^ d.exponent := by
    rw [← zpow_natCast, ← zpow_add₀ (by norm_num), Int.toNat_of_nonneg (by omega),
      sub_add_cancel]
  rw [value, value, power, ← mul_assoc] at same
  exact_mod_cast mul_right_cancel₀ (ten_zpow_pos d.exponent).ne' same

theorem eq_of_value_eq {d e : Decimal} (hd : d.coefficient % 10 ≠ 0) (he : e.coefficient % 10 ≠ 0)
    (same : d.value = e.value) : d = e := by
  wlog le : d.exponent ≤ e.exponent generalizing d e
  · exact (this he hd same.symm (le_of_not_ge le)).symm
  have product := coefficient_eq_mul_pow same le
  -- a power of ten would leave trailing zeros
  cases count : (e.exponent - d.exponent).toNat with
  | zero =>
    have exponents : d.exponent = e.exponent := by omega
    rw [count, pow_zero, mul_one] at product
    cases d
    cases e
    simp_all
  | succ count' =>
    rw [count, pow_succ, ← mul_assoc] at product
    exact absurd (by rw [product, Nat.mul_mod_left]) hd

theorem normalize_congr {d e : Decimal} (pos : 0 < d.coefficient) (same : d.value = e.value) :
    d.normalize = e.normalize := by
  have e_pos : 0 < e.coefficient := by
    rw [coefficient_pos_iff] at pos ⊢
    exact same ▸ pos
  refine eq_of_value_eq (normalize_coefficient_mod pos) (normalize_coefficient_mod e_pos) ?_
  rw [value_normalize, value_normalize, same]

/-! ## Short decimals -/

theorem two_zpow_leastNormal :
    (2 : Rat) ^ (-1022 : Int) = leadingUnit * (2 : Rat) ^ leastExponent := by
  rw [leadingUnit_mul_zpow]
  rfl

theorem leadingUnit_le_mantissa_iff (y : FiniteDouble) :
    leadingUnit ≤ y.mantissa ↔ (2 : Rat) ^ (-1022 : Int) ≤ y.magnitude := by
  rw [two_zpow_leastNormal, FiniteDouble.magnitude]
  constructor
  · intro normal
    exact mul_le_mul (by exact_mod_cast normal) (two_zpow_le y.isBinary.2.1) (two_zpow_pos _).le
      (Nat.cast_nonneg _)
  · intro le
    by_contra small
    -- below the normal doubles the exponent is the least one
    rw [y.isBinary.2.2.resolve_left small] at le
    exact small (by exact_mod_cast le_of_mul_le_mul_right le (two_zpow_pos leastExponent))

theorem magnitude_pos_of_normal {y : FiniteDouble} (normal : leadingUnit ≤ y.mantissa) :
    0 < y.magnitude :=
  y.magnitude_pos_iff.mpr (lt_of_lt_of_le (by decide) normal)

/-- What is no smaller than the least normal double reads to a normal one. -/
theorem leadingUnit_le_of_toBinary {y : FiniteDouble} {v : Rat}
    (le : (2 : Rat) ^ (-1022 : Int) ≤ v) (reads : toBinary v = y.magnitude) :
    leadingUnit ≤ y.mantissa := by
  have monotone := toBinary_mono (two_zpow_pos (-1022)) le
  have binary : IsBinary leadingUnit leastExponent := ⟨by decide, le_rfl, .inl le_rfl⟩
  rw [reads, two_zpow_leastNormal, binary.toBinary_eq (by decide), ← two_zpow_leastNormal]
    at monotone
  exact (leadingUnit_le_mantissa_iff y).mpr monotone

/-- What reads to a normal double is within a `2 ^ 53`-th part of it. -/
theorem abs_sub_le_of_normal {y : FiniteDouble} (normal : leadingUnit ≤ y.mantissa) {v : Rat}
    (pos : 0 < v) (rounds : toBinary v = y.magnitude) :
    2 * (leadingUnit * |y.magnitude - v|) ≤ y.magnitude := by
  have within := abs_sub_le_of_toBinary pos rounds
  have leading : (leadingUnit : Rat) * (2 : Rat) ^ y.exponent ≤ y.magnitude :=
    mul_le_mul_of_nonneg_right (by exact_mod_cast normal) (two_zpow_pos y.exponent).le
  norm_num [leadingUnit] at leading ⊢
  linarith

/-- Only one of the decimals with at most fifteen digits reads to a normal double. -/
theorem value_eq_of_toBinary_eq {y : FiniteDouble} (normal : leadingUnit ≤ y.mantissa)
    {d e : Decimal} (d_pos : 0 < d.coefficient) (d_short : d.coefficient ≤ 10 ^ 15)
    (e_pos : 0 < e.coefficient) (e_short : e.coefficient ≤ 10 ^ 15)
    (d_reads : toBinary d.value = y.magnitude) (e_reads : toBinary e.value = y.magnitude) :
    d.value = e.value := by
  wlog le : d.exponent ≤ e.exponent generalizing d e
  · exact (this e_pos e_short d_pos d_short e_reads d_reads (le_of_not_ge le)).symm
  have step_pos := ten_zpow_pos d.exponent
  have d_near := abs_sub_le_of_normal normal (value_pos d_pos) d_reads
  have e_near := abs_sub_le_of_normal normal (value_pos e_pos) e_reads
  have value_le : d.value ≤ 10 ^ 15 * (10 : Rat) ^ d.exponent :=
    mul_le_mul_of_nonneg_right (by exact_mod_cast d_short) step_pos.le
  -- both are multiples of the smaller step, and closer to each other than this step
  obtain ⟨k, multiple⟩ := exists_multiple 10 (by decide) le e.coefficient
  have e_value : e.value = k * (10 : Rat) ^ d.exponent := by
    rw [value]
    exact_mod_cast multiple
  have d_value : d.value = (d.coefficient : Int) * (10 : Rat) ^ d.exponent := by
    rw [value, Int.cast_natCast]
  have close : |d.value - e.value| < (10 : Rat) ^ d.exponent := by
    have triangle := abs_sub_le d.value y.magnitude e.value
    have lower := (abs_le.mp (le_refl |y.magnitude - d.value|)).2
    rw [abs_sub_comm d.value y.magnitude] at triangle
    norm_num [leadingUnit] at d_near e_near value_le
    linarith
  rw [d_value, e_value] at close ⊢
  rw [multiples_eq step_pos close]

/-- A short decimal is what the normal double that it reads to is rounded to, with as many digits or
more. -/
theorem value_nearest_eq {digits : Nat} (few : digits ≤ 14) {y : FiniteDouble}
    (normal : leadingUnit ≤ y.mantissa) {d : Decimal} (pos : 0 < d.coefficient)
    (short : d.coefficient ≤ 10 ^ (digits + 1)) (reads : toBinary d.value = y.magnitude) :
    (nearest (digits + 1) y.magnitude).value = d.value := by
  have power : 10 ^ (digits + 1) ≤ 10 ^ 15 := Nat.pow_le_pow_right (by decide) (by omega)
  obtain ⟨nearest_pos, nearest_reads⟩ :=
    toBinary_nearest few (magnitude_pos_of_normal normal) pos short reads
  exact value_eq_of_toBinary_eq normal ((coefficient_pos_iff _).mpr nearest_pos)
    ((nearest_coefficient_le _ _).trans power) pos (short.trans power) nearest_reads reads

/-- A short decimal is below one that reads to a normal double exactly if the double it reads to is
below that one. -/
theorem toBinary_lt_iff {y : FiniteDouble} (normal : leadingUnit ≤ y.mantissa) {d e : Decimal}
    (d_pos : 0 < d.coefficient) (d_short : d.coefficient ≤ 10 ^ 15) (e_pos : 0 < e.coefficient)
    (e_short : e.coefficient ≤ 10 ^ 15) (e_reads : toBinary e.value = y.magnitude) :
    toBinary d.value < y.magnitude ↔ d.value < e.value := by
  constructor
  · intro lt
    by_contra above
    have monotone := toBinary_mono (value_pos e_pos) (not_lt.mp above)
    rw [e_reads] at monotone
    exact absurd lt (not_lt.mpr monotone)
  · intro lt
    have monotone := toBinary_mono (value_pos d_pos) lt.le
    rw [e_reads] at monotone
    refine lt_of_le_of_ne monotone fun d_reads => lt.ne ?_
    exact value_eq_of_toBinary_eq normal d_pos d_short e_pos e_short d_reads e_reads

/-! ## The search for the shortest decimal -/

theorem roundEven_eq_floor_or (x : Rat) : roundEven x = x.floor ∨ roundEven x = x.floor + 1 := by
  unfold roundEven
  dsimp only
  split_ifs <;> simp

theorem nearest_mem_neighbours (digits : Nat) {x : Rat} (pos : 0 < x) :
    nearest digits x ∈ neighbours digits x := by
  have scaled_pos : 0 < x / (10 : Rat) ^ lastPlace digits x := div_pos pos (ten_zpow_pos _)
  have floor_nonneg : 0 ≤ (x / (10 : Rat) ^ lastPlace digits x).floor :=
    Int.floor_nonneg.mpr scaled_pos.le
  unfold neighbours nearest
  dsimp only
  rcases roundEven_eq_floor_or (x / (10 : Rat) ^ lastPlace digits x) with below | above
  · rw [below]
    split <;> simp
  · rw [above, Int.toNat_add floor_nonneg (by decide)]
    split <;> simp

theorem coefficient_le_of_mem_neighbours {digits : Nat} {x : Rat} {d : Decimal}
    (member : d ∈ neighbours digits x) : d.coefficient ≤ 10 ^ digits := by
  have step_pos := ten_zpow_pos (lastPlace digits x)
  have below : (x / (10 : Rat) ^ lastPlace digits x).floor < ((10 ^ digits : Nat) : Int) := by
    have scaled : x / (10 : Rat) ^ lastPlace digits x < (10 : Rat) ^ digits := by
      rw [div_lt_iff₀ step_pos, mul_comm]
      exact lt_lastPlace_mul digits x
    have floor_le := Int.floor_le (x / (10 : Rat) ^ lastPlace digits x)
    exact_mod_cast floor_le.trans_lt scaled
  have power_pos : 0 < 10 ^ digits := Nat.pow_pos (by decide)
  unfold neighbours at member
  dsimp only at member
  split at member <;> rcases List.mem_pair.mp member with rfl | rfl <;> dsimp only <;> omega

end Decimal

namespace FiniteDouble

open Decimal

theorem readsBack_iff {x : FiniteDouble} (pos : 0 < x.magnitude) (d : Decimal) :
    x.readsBack d = true ↔ 0 < d.coefficient ∧ toBinary d.value = x.magnitude := by
  rw [readsBack, decide_eq_true_eq, toDouble_eq_nearest]
  rcases Nat.eq_zero_or_pos d.coefficient with zero | coefficient_pos
  · -- a zero reads to a zero
    have value : d.value = 0 := by rw [Decimal.value, zero, Nat.cast_zero, zero_mul]
    rw [value, Double.nearest_zero, zero]
    constructor
    · intro same
      have magnitude := congrArg magnitude (Double.finite.inj same)
      rw [magnitude_zero] at magnitude
      exact absurd magnitude pos.ne
    · rintro ⟨impossible, _⟩
      exact absurd impossible (lt_irrefl 0)
  · rw [Double.nearest_eq_finite_iff (value_pos coefficient_pos)]
    constructor
    · rintro ⟨_, same⟩
      exact ⟨coefficient_pos, same.symm⟩
    · rintro ⟨_, same⟩
      exact ⟨rfl, same.symm⟩

/-- Where some decimal with so many digits or fewer reads to a double, the search ends with one that
has no more digits. -/
theorem exists_shortest_eq {digits : Nat} (few : digits ≤ 14) {x : FiniteDouble}
    (pos : 0 < x.magnitude) {d : Decimal} (d_pos : 0 < d.coefficient)
    (short : d.coefficient ≤ 10 ^ (digits + 1)) (reads : toBinary d.value = x.magnitude) :
    ∃ e : Decimal, e.coefficient ≤ 10 ^ (digits + 1) ∧ x.readsBack e = true ∧
      x.shortest = e.normalize := by
  let tried (count : Nat) := (neighbours (count + 1) x.magnitude).find? x.readsBack
  obtain ⟨nearest_pos, nearest_reads⟩ := toBinary_nearest few pos d_pos short reads
  -- the nearest decimal with so many digits is one of those tried
  have hit : (tried digits).isSome = true := by
    refine List.find?_isSome.mpr ⟨_, nearest_mem_neighbours (digits + 1) pos, ?_⟩
    exact (readsBack_iff pos _).mpr ⟨(coefficient_pos_iff _).mpr nearest_pos, nearest_reads⟩
  have first : ((List.range (digits + 1)).findSome? tried).isSome = true :=
    List.findSome?_isSome_iff.mpr ⟨digits, List.self_mem_range_succ, hit⟩
  obtain ⟨e, found⟩ := Option.isSome_iff_exists.mp first
  obtain ⟨count, member, tried_eq⟩ := List.exists_of_findSome?_eq_some found
  have split : List.range 17 =
      List.range (digits + 1) ++ (List.range (16 - digits)).map (digits + 1 + ·) := by
    rw [← List.range_add]
    congr 1
    omega
  refine ⟨e, ?_, List.find?_some tried_eq, ?_⟩
  · have bound := coefficient_le_of_mem_neighbours (List.mem_of_find?_eq_some tried_eq)
    have count_lt := List.mem_range.mp member
    exact bound.trans (Nat.pow_le_pow_right (by decide) (by omega))
  · rw [shortest, split, List.findSome?_append, found, Option.some_or, Option.getD_some]

/-- The shortest decimal of a normal double is the short decimal that reads to it, less its trailing
zeros. -/
theorem shortest_eq_normalize {digits : Nat} (few : digits ≤ 14) {x : FiniteDouble}
    (normal : leadingUnit ≤ x.mantissa) {d : Decimal} (d_pos : 0 < d.coefficient)
    (short : d.coefficient ≤ 10 ^ (digits + 1)) (reads : toBinary d.value = x.magnitude) :
    x.shortest = d.normalize := by
  have pos := magnitude_pos_of_normal normal
  have power : 10 ^ (digits + 1) ≤ 10 ^ 15 := Nat.pow_le_pow_right (by decide) (by omega)
  obtain ⟨e, e_short, back, shortest⟩ := exists_shortest_eq few pos d_pos short reads
  obtain ⟨e_pos, e_reads⟩ := (readsBack_iff pos e).mp back
  rw [shortest]
  exact normalize_congr e_pos (value_eq_of_toBinary_eq normal e_pos (e_short.trans power) d_pos
    (short.trans power) e_reads reads)

end FiniteDouble

end DeskCalculator
