import DeskCalculator.Number.Double

/-!
# The interchange format of doubles

A double as a 64-bit word: one bit of sign, eleven of biased exponent, fifty-two of fraction. The
word read as a number is the sign's weight plus `(exponent + 1074) * 2 ^ 52 + mantissa`, for normal
and subnormal numbers alike.
-/
namespace DeskCalculator

def signWeight : Nat := 9223372036854775808

/-- The biased exponent shared by the infinities and not-a-number. -/
def specialExponent : Nat := 2047

namespace FiniteDouble

/-- The finite double of a sign, a biased exponent and a fraction. -/
def ofFields (negative : Bool) (biased : Nat) (biased_lt : biased < specialExponent)
    (fraction : Nat) (fraction_lt : fraction < leadingUnit) : FiniteDouble :=
  if subnormal : biased = 0 then
    ⟨negative, fraction, leastExponent, by omega, Int.le_refl _, by decide, .inr rfl⟩
  else
    ⟨negative, leadingUnit + fraction, leastExponent + (biased - 1), by
      simp only [CanonicalParts, leadingUnit, leastExponent, greatestExponent,
        specialExponent] at biased_lt fraction_lt ⊢
      omega⟩

end FiniteDouble

namespace Double

/-- The word of a double; not-a-number has its quiet form without a sign. -/
def toBits : Double → Nat
  | .nan => specialExponent * leadingUnit + leadingUnit / 2
  | .infinite negative => (if negative then signWeight else 0) + specialExponent * leadingUnit
  | .finite x => (if x.negative then signWeight else 0) +
      ((x.exponent - leastExponent).toNat * leadingUnit + x.mantissa)

/-- The double of a word; bits above the sixty-fourth are ignored. -/
def ofBits (word : Nat) : Double :=
  let negative := decide (word / signWeight % 2 = 1)
  let biased := word / leadingUnit % 2048
  let fraction := word % leadingUnit
  if h : biased < specialExponent then
    .finite (.ofFields negative biased h fraction (Nat.mod_lt _ (by decide)))
  else if fraction = 0 then .infinite negative
  else .nan

/-- The fields of a word are those it was put together from. -/
theorem fields_of_word (negative : Bool) (biased fraction : Nat) (biased_lt : biased < 2048)
    (fraction_lt : fraction < leadingUnit) :
    let word := (if negative then signWeight else 0) + (biased * leadingUnit + fraction)
    decide (word / signWeight % 2 = 1) = negative ∧ word / leadingUnit % 2048 = biased ∧
      word % leadingUnit = fraction := by
  simp only [leadingUnit, signWeight] at *
  cases negative <;> simp only [Bool.false_eq_true, ↓reduceIte, decide_eq_true_eq,
    decide_eq_false_iff_not] <;> omega

theorem ofBits_toBits (x : Double) : ofBits x.toBits = x := by
  cases x with
  | nan => decide
  | infinite negative => cases negative <;> decide
  | finite x =>
    obtain ⟨negative, mantissa, exponent, canonical⟩ := x
    obtain ⟨mantissa_lt, least_le, le_greatest, normal⟩ := canonical
    by_cases leading : leadingUnit ≤ mantissa
    · obtain ⟨fraction, rfl⟩ := Nat.exists_eq_add_of_le leading
      have split : (exponent - leastExponent).toNat * leadingUnit + (leadingUnit + fraction) =
          ((exponent - leastExponent).toNat + 1) * leadingUnit + fraction := by
        rw [Nat.succ_mul, Nat.add_assoc]
      have small : (exponent - leastExponent).toNat + 1 < specialExponent := by
        simp only [leastExponent, greatestExponent, specialExponent] at *; omega
      have exponent_eq : leastExponent +
          ((((exponent - leastExponent).toNat + 1 : Nat) : Int) - 1) = exponent := by
        simp only [leastExponent] at *; omega
      obtain ⟨sign_eq, biased_eq, fraction_eq⟩ := fields_of_word negative
        ((exponent - leastExponent).toNat + 1) fraction
        (Nat.lt_of_lt_of_le small (by decide)) (by omega)
      simp only [ofBits, toBits, split, sign_eq, biased_eq, fraction_eq, small, ↓reduceDIte,
        FiniteDouble.ofFields, Nat.add_one_ne_zero, exponent_eq]
    · have least : exponent = leastExponent := normal.resolve_left leading
      subst least
      obtain ⟨sign_eq, biased_eq, fraction_eq⟩ := fields_of_word negative 0 mantissa
        (by decide) (by omega)
      have small : 0 < specialExponent := by decide
      simp only [Nat.zero_mul, Nat.zero_add] at sign_eq biased_eq fraction_eq
      simp only [ofBits, toBits, Int.sub_self, Int.toNat_zero, Nat.zero_mul, Nat.zero_add,
        sign_eq, biased_eq, fraction_eq, small, ↓reduceDIte, FiniteDouble.ofFields]

/-- The machine number with the same word. -/
def toFloat (x : Double) : Float := Float.ofBits (UInt64.ofNat x.toBits)

/-- The double with the same word as a machine number. -/
def ofFloat (x : Float) : Double := ofBits x.toBits.toNat

end Double

end DeskCalculator
