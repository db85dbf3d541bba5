import DeskCalculator.Proofs.Display.Order
import DeskCalculator.Proofs.Editor.Commit

/-!
# Numbers that a commit leaves as they are

A number with few significant digits that is typed and committed is shown as the number it is,
however it was typed. The double nearest to it is rounded for display to as many digits as it has
or more, which leads back to the number itself, so the double is written for itself; and the
shortest decimal of the double is the number without its trailing zeros.
-/
namespace DeskCalculator

/-- A magnitude that is written with no more than so many significant digits. -/
def Decimal.HasDigits (digits : Nat) (v : Rat) : Prop :=
  ∃ d : Decimal, d.coefficient < 10 ^ digits ∧ d.value = v

namespace Display

open Decimal Numeral

/-- The magnitudes whose digits are all shown: with twelve significant digits those that are written
without an exponent, with ten all others too, up to the ends of the range of normal doubles. -/
def Exact (v : Rat) : Prop :=
  (HasDigits 12 v ∧ Plain v) ∨
    (HasDigits 10 v ∧ (10 : Rat) ^ (-307 : Int) ≤ v ∧ v ≤ (10 : Rat) ^ (308 : Int))

namespace Exact

variable {v : Rat} (whole : Exact v)
include whole

theorem bounds : (10 : Rat) ^ (-307 : Int) ≤ v ∧ v ≤ (10 : Rat) ^ (308 : Int) := by
  rcases whole with ⟨_, plain⟩ | ⟨_, bounds⟩
  · exact ⟨(ten_zpow_le (by decide)).trans plain.1, plain.2.le.trans (ten_zpow_le (by decide))⟩
  · exact bounds

theorem pos : 0 < v := (ten_zpow_pos (-307)).trans_le whole.bounds.1

theorem hasDigits : HasDigits 12 v := by
  rcases whole with ⟨twelve, _⟩ | ⟨⟨d, ten, value⟩, _⟩
  · exact twelve
  · exact ⟨d, ten.trans (by decide), value⟩

/-- The double nearest to such a magnitude is finite and normal. -/
theorem exists_double (negative : Bool) :
    ∃ x : FiniteDouble, Double.nearest negative v = .finite x ∧ x.negative = negative ∧
      toBinary v = x.magnitude ∧ leadingUnit ≤ x.mantissa := by
  have top : (10 : Rat) ^ (308 : Int) ≤ largest.magnitude := by
    have le := mul_zpow_le_of_mul_pow_le (a := 1) (b := 10) (c := 9007199254740991) (d := 2)
      (m := 308) (n := 971) (by decide +kernel)
    rwa [Nat.cast_one, one_mul] at le
  have bottom : (2 : Rat) ^ (-1022 : Int) ≤ (10 : Rat) ^ (-307 : Int) := by decide +kernel
  obtain ⟨x, finite⟩ :=
    Double.exists_nearest_eq_finite negative whole.pos (whole.bounds.2.trans top)
  obtain ⟨sign, reads⟩ := (Double.nearest_eq_finite_iff whole.pos).mp finite
  exact ⟨x, finite, sign, reads.symm,
    leadingUnit_le_of_toBinary (bottom.trans whole.bounds.1) reads.symm⟩

variable {x : FiniteDouble} (reads : toBinary v = x.magnitude) (normal : leadingUnit ≤ x.mantissa)
include reads normal

omit whole in
theorem value_nearest {digits : Nat} (few : digits ≤ 14) (has : HasDigits (digits + 1) v)
    (v_pos : 0 < v) : (nearest (digits + 1) x.magnitude).value = v := by
  obtain ⟨d, short, rfl⟩ := has
  exact value_nearest_eq few normal ((coefficient_pos_iff d).mpr v_pos) short.le reads

/-- Rounding for display leads from the double back to the magnitude. -/
theorem value_decimal : (decimal x.magnitude).value = v := by
  have pos := whole.pos
  have twelve : (nearest 12 x.magnitude).value = v :=
    value_nearest reads normal (show 11 ≤ 14 by decide) whole.hasDigits pos
  rw [decimal, twelve]
  split
  · exact twelve
  · next outside =>
    rcases whole with ⟨_, plain⟩ | ⟨ten, _⟩
    · exact absurd plain outside
    · exact value_nearest reads normal (show 9 ≤ 14 by decide) ten pos

theorem shown_eq : shown x = .finite x := by
  rw [shown_eq_toDouble (magnitude_pos_of_normal normal), toDouble_eq_nearest,
    whole.value_decimal reads normal, Double.nearest_eq_finite_iff whole.pos]
  exact ⟨rfl, reads.symm⟩

/-- The text of the double denotes the magnitude, with the sign of the double. -/
theorem value?_number : value? (number x) = some (if x.negative then -v else v) := by
  obtain ⟨d, short, value⟩ := whole.hasDigits
  have digits : x.shortest.value = v := by
    rw [FiniteDouble.shortest_eq_normalize (show 11 ≤ 14 by decide) normal
      ((coefficient_pos_iff d).mpr (value ▸ whole.pos)) short.le (value ▸ reads),
      value_normalize, value]
  rw [Display.value?_number (whole.shown_eq reads normal), writtenValue, writtenMagnitude,
    if_pos (magnitude_pos_of_normal normal), digits]

end Exact

end Display

open Display Numeral

/-- A literal that denotes zero, or a number all of whose digits are shown, commits to a finite
result, and what is shown of it denotes the same number. -/
theorem Line.commit_of_exact {line : Line} {v : Rat}
    (literal : scan line.text = .ok [.literal line.text]) (denotes : value? line.text = some v)
    (short : v = 0 ∨ Exact |v|) :
    ∃ x : FiniteDouble, evaluate line.text = .ok (.finite x) ∧
      line.commit = (ofResult x, some (.ofResult x)) ∧ value? (number x) = some v := by
  obtain ⟨negative, d, reads, signed⟩ := exists_decimal_of_value? denotes
  have some_text : line.text ≠ [] := ne_nil_of_scan literal (by simp)
  suffices ∃ x, d.toDouble negative = .finite x ∧ value? (number x) = some v by
    obtain ⟨x, finite, shown⟩ := this
    rw [finite] at reads
    have result := evaluate_of_scan_literal literal reads
    exact ⟨x, result, commit_of_finite some_text result, shown⟩
  have nonneg : 0 ≤ d.value := mul_nonneg (Nat.cast_nonneg _) (ten_zpow_pos _).le
  rw [Decimal.toDouble_eq_nearest]
  rcases short with rfl | whole
  · have zero : d.value = 0 := by
      cases negative <;> simpa using signed.symm
    rw [zero, Double.nearest_zero]
    exact ⟨_, rfl, writes_zero.value? false⟩
  · have magnitude : |v| = d.value := by
      rw [signed]
      cases negative <;> simp [abs_of_nonneg nonneg]
    rw [magnitude] at whole
    obtain ⟨x, finite, sign, near, normal⟩ := whole.exists_double negative
    refine ⟨x, finite, ?_⟩
    rw [whole.value?_number near normal, sign, signed]

/-- The least of the numbers with ten digits, with its zeros and its point where nobody expects
them. -/
theorem Line.commit_of_exact_least :
    let line := ofText "-.00100e-304".toList
    let v : Rat := -(10 : Rat) ^ (-307 : Int)
    scan line.text = .ok [.literal line.text] ∧ value? line.text = some v ∧ Exact |v| ∧
      line.commit.2 = some ⟨"-1e-307".toList, "-1e-307".toList, some "-1e-307".toList⟩ ∧
      value? "-1e-307".toList = some v := by
  intro line v
  have literal : scan line.text = .ok [.literal line.text] := by decide +kernel
  have denotes : value? line.text = some v := by decide +kernel
  have exact_magnitude : Exact |v| := by
    rw [abs_neg, abs_of_pos (ten_zpow_pos (-307))]
    refine .inr ⟨⟨⟨1, -307⟩, by decide, value_power (-307)⟩, le_rfl, ten_zpow_le (by decide)⟩
  obtain ⟨x, result, commits, shown⟩ := commit_of_exact literal denotes (.inr exact_magnitude)
  have nearest : evaluate line.text =
      .ok (.finite ⟨true, 5060056332682765, -1072, by decide⟩) := by decide +kernel
  have text : number x = "-1e-307".toList := by
    rw [nearest] at result
    cases result
    decide +kernel
  rw [commits, ← text]
  exact ⟨literal, denotes, exact_magnitude, rfl, shown⟩

end DeskCalculator
