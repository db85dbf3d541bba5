import DeskCalculator.Number.Numeral
import DeskCalculator.Proofs.Number.Decimals
import DeskCalculator.Proofs.Text.Span

/-!
# Written decimals

Both written forms of a decimal are numerals, and reading either of them gives the value of the
decimal back. A written form is a run of digits, with a point in it where there is a fraction, and
perhaps an exponent behind it. The fraction ends in the last digit of the coefficient, so that it
has no trailing zero if the coefficient has none.
-/
namespace DeskCalculator

namespace Numeral

/-- Digits with a point before the fraction, if there is one. -/
def runText (whole fraction : List Char) : List Char :=
  if fraction = [] then whole else whole ++ '.' :: fraction

/-- What follows a run of digits and points in a numeral: nothing, or an exponent. -/
def suffixText : Option Int → List Char
  | none => []
  | some k => 'e' :: Decimal.signed k

def AllDigits (text : List Char) : Prop := ∀ c ∈ text, c.isDigit = true

theorem AllDigits.append {left right : List Char} (hl : AllDigits left) (hr : AllDigits right) :
    AllDigits (left ++ right) := by
  intro c member
  rcases List.mem_append.mp member with first | second
  · exact hl c first
  · exact hr c second

theorem allDigits_digits (n : Nat) : AllDigits (Decimal.digits n) :=
  fun _ member => Nat.isDigit_of_mem_toDigits (by decide) (by decide) member

theorem allDigits_zeros (count : Nat) : AllDigits (Decimal.zeros count) := by
  intro c member
  rw [(List.mem_replicate.mp member).2]
  decide

theorem digits_ne_nil (n : Nat) : Decimal.digits n ≠ [] := Nat.toDigits_ne_nil

theorem digitsValue_digits (n : Nat) : digitsValue (Decimal.digits n) = n :=
  Nat.ofDigitChars_ten_toDigits

/-! ## Reading -/

theorem splitSign_of_digit {c : Char} (digit : c.isDigit = true) (rest : List Char) :
    splitSign (c :: rest) = (false, c :: rest) := by
  unfold splitSign
  split
  · next same => cases same; exact absurd digit (by decide)
  · next same => cases same; exact absurd digit (by decide)
  · rfl

theorem exponent?_signed (k : Int) : exponent? (Decimal.signed k) = some k := by
  have ne_nil := digits_ne_nil k.natAbs
  have all : (Decimal.digits k.natAbs).all Char.isDigit = true :=
    List.all_eq_true.mpr (allDigits_digits _)
  unfold Decimal.signed
  split
  · next negative =>
    simp only [exponent?, splitSign, ne_nil, ne_eq, not_false_eq_true, all, and_self, ↓reduceIte,
      digitsValue_digits, Option.some.injEq]
    omega
  · next nonneg =>
    obtain ⟨c, rest, shape⟩ := List.exists_cons_of_ne_nil ne_nil
    have first : splitSign (Decimal.digits k.natAbs) = (false, Decimal.digits k.natAbs) := by
      rw [shape]
      exact splitSign_of_digit (allDigits_digits k.natAbs c (by simp [shape])) rest
    simp only [exponent?, first, ne_nil, ne_eq, not_false_eq_true, all, and_self, ↓reduceIte,
      digitsValue_digits, Option.some.injEq, Bool.false_eq_true]
    omega

theorem suffixText_stop (e : Option Int) : (suffixText e).takeWhile Char.isDigit = [] := by
  cases e <;> rfl

/-- A numeral is read as its digits, with the point moved behind the last of them. -/
theorem decimal?_runText {whole fraction : List Char} (digits_whole : AllDigits whole)
    (digits_fraction : AllDigits fraction) (ne_nil : whole ≠ []) (e : Option Int) :
    decimal? (runText whole fraction ++ suffixText e) =
      some ⟨digitsValue (whole ++ fraction), e.getD 0 - fraction.length⟩ := by
  have stop := suffixText_stop e
  have some_digit : whole ++ fraction ≠ [] := by simp [ne_nil]
  unfold runText
  -- without a point the suffix follows the whole digits at once
  split
  · next none =>
    subst none
    rw [decimal?, takeWhile_append_of_stop digits_whole stop,
      dropWhile_append_of_stop digits_whole stop]
    cases e with
    | none => simp [suffixText, ne_nil]
    | some k => simp [suffixText, ne_nil, isExponentMark, exponent?_signed]
  · have point : ('.' :: (fraction ++ suffixText e)).takeWhile Char.isDigit = [] := rfl
    rw [List.append_assoc, List.cons_append, decimal?, takeWhile_append_of_stop digits_whole point,
      dropWhile_append_of_stop digits_whole point]
    simp only [takeWhile_append_of_stop digits_fraction stop,
      dropWhile_append_of_stop digits_fraction stop, some_digit, ↓reduceIte]
    cases e with
    | none => simp [suffixText]
    | some k => simp [suffixText, isExponentMark, exponent?_signed]

/-! ## Writing -/

/-- The text is an unsigned numeral of the value. -/
def Writes (text : List Char) (v : Rat) : Prop :=
  ∃ whole fraction e, AllDigits whole ∧ AllDigits fraction ∧ whole ≠ [] ∧
    text = runText whole fraction ++ suffixText e ∧
    v = Decimal.value ⟨digitsValue (whole ++ fraction), e.getD 0 - fraction.length⟩

theorem digitsValue_append_zeros (ds : List Char) (count : Nat) :
    digitsValue (ds ++ Decimal.zeros count) = digitsValue ds * 10 ^ count := by
  rw [digitsValue, Nat.ofDigitChars_append, Decimal.zeros, Nat.ofDigitChars_replicate_zero,
    Nat.mul_comm, digitsValue]

theorem digitsValue_zeros_append (count : Nat) (ds : List Char) :
    digitsValue (Decimal.zeros count ++ ds) = digitsValue ds := by
  rw [digitsValue, Nat.ofDigitChars_append, Decimal.zeros, Nat.ofDigitChars_replicate_zero,
    Nat.mul_zero, digitsValue]

/-- How a decimal is written: as digits with a point before the fraction, if there is one, and
perhaps an exponent, which together denote the decimal. The fraction ends in the last digit of the
coefficient. -/
def LaidOut (d : Decimal) (text : List Char) (e : Option Int) : Prop :=
  ∃ whole fraction, AllDigits whole ∧ AllDigits fraction ∧ whole ≠ [] ∧
    text = runText whole fraction ++ suffixText e ∧
    d.value = Decimal.value ⟨digitsValue (whole ++ fraction), e.getD 0 - fraction.length⟩ ∧
    ∀ c ∈ fraction.getLast?, c ∈ (Decimal.digits d.coefficient).getLast?

theorem laidOut_positional (d : Decimal) : LaidOut d d.positional none := by
  have all := allDigits_digits d.coefficient
  have value := digitsValue_digits d.coefficient
  have length_pos := List.length_pos_iff.mpr (digits_ne_nil d.coefficient)
  unfold Decimal.positional
  dsimp only
  split_ifs with whole_number inside
  · -- a whole number: the zeros behind the digits raise the coefficient
    refine ⟨Decimal.digits d.coefficient ++ Decimal.zeros d.exponent.toNat, [],
      all.append (allDigits_zeros _), by simp [AllDigits], by simp [digits_ne_nil],
      by simp [runText, suffixText], ?_, by simp⟩
    obtain ⟨n, exponent⟩ := Int.eq_ofNat_of_zero_le whole_number
    rw [List.append_nil, digitsValue_append_zeros, value, Decimal.value, Decimal.value, exponent]
    simp
  · -- the point stands inside the digits
    have fraction_ne : (Decimal.digits d.coefficient).drop
        ((Decimal.digits d.coefficient).length + d.exponent).toNat ≠ [] := by
      rw [ne_eq, List.drop_eq_nil_iff]
      omega
    refine ⟨_, _, fun c member => all c (List.mem_of_mem_take member),
      fun c member => all c (List.mem_of_mem_drop member), ?_,
      by rw [runText, if_neg fraction_ne, suffixText, List.append_nil], ?_,
      fun c last => mem_getLast?_of_isSuffix (List.drop_suffix _ _) last⟩
    · simp only [ne_eq, List.take_eq_nil_iff, not_or]
      exact ⟨by omega, digits_ne_nil _⟩
    · rw [List.take_append_drop, value, List.length_drop, Decimal.value]
      congr 2
      simp only [Option.getD_none]
      omega
  · -- the point stands before the digits
    refine ⟨['0'], Decimal.zeros (-(((Decimal.digits d.coefficient).length : Int) +
      d.exponent)).toNat ++ Decimal.digits d.coefficient, by simp [AllDigits],
      (allDigits_zeros _).append all, by simp, by simp [runText, suffixText, digits_ne_nil], ?_,
      fun c last => ?_⟩
    · have zero (ds : List Char) : digitsValue (['0'] ++ ds) = digitsValue ds :=
        digitsValue_zeros_append 1 ds
      rw [zero, digitsValue_zeros_append, value, List.length_append, Decimal.zeros,
        List.length_replicate, Decimal.value]
      congr 2
      simp only [Option.getD_none]
      omega
    · rwa [List.getLast?_append_of_ne_nil _ (digits_ne_nil _)] at last

theorem laidOut_scientific (d : Decimal) :
    LaidOut d d.scientific
      (some (d.exponent + ((Decimal.digits d.coefficient).drop 1).length)) := by
  have all := allDigits_digits d.coefficient
  -- the exponent of the first digit makes up for the digits behind the point
  refine ⟨(Decimal.digits d.coefficient).take 1, (Decimal.digits d.coefficient).drop 1,
    fun c member => all c (List.mem_of_mem_take member),
    fun c member => all c (List.mem_of_mem_drop member), by simp [digits_ne_nil], rfl, ?_,
    fun c last => mem_getLast?_of_isSuffix (List.drop_suffix _ _) last⟩
  rw [List.take_append_drop, digitsValue_digits, Option.getD_some, add_sub_cancel_right]

theorem LaidOut.writes {d : Decimal} {text : List Char} {e : Option Int} (laid : LaidOut d text e) :
    Writes text d.value := by
  obtain ⟨whole, fraction, digits_whole, digits_fraction, ne_nil, shape, value, _⟩ := laid
  exact ⟨whole, fraction, e, digits_whole, digits_fraction, ne_nil, shape, value⟩

theorem writes_positional (d : Decimal) : Writes d.positional d.value :=
  (laidOut_positional d).writes

theorem writes_scientific (d : Decimal) : Writes d.scientific d.value :=
  (laidOut_scientific d).writes

/-- The text is a run of digits with an exponent behind it or without, and has no zero at the end of
its fraction, if there is a point with a fraction. -/
def Trimmed (text : List Char) (e : Option Int) : Prop :=
  ∃ whole fraction, AllDigits whole ∧ AllDigits fraction ∧ whole ≠ [] ∧
    text = runText whole fraction ++ suffixText e ∧ fraction.getLast? ≠ some '0'

theorem getLast?_digits (n : Nat) : (Decimal.digits n).getLast? = some (n % 10).digitChar := by
  rcases lt_or_ge n 10 with small | large
  · rw [Decimal.digits, Nat.toDigits_of_lt_base small, Nat.mod_eq_of_lt small,
      List.getLast?_singleton]
  · rw [Decimal.digits, Nat.toDigits_of_base_le (by decide) large, List.getLast?_concat]

theorem LaidOut.trimmed {d : Decimal} {text : List Char} {e : Option Int} (laid : LaidOut d text e)
    (no_zero : d.coefficient % 10 ≠ 0) : Trimmed text e := by
  obtain ⟨whole, fraction, digits_whole, digits_fraction, ne_nil, shape, _, last⟩ := laid
  refine ⟨whole, fraction, digits_whole, digits_fraction, ne_nil, shape, fun zero => no_zero ?_⟩
  have digit := last '0' zero
  rw [getLast?_digits, Option.mem_some_iff] at digit
  exact Nat.digitChar_eq_zero.mp digit

theorem Writes.exists_cons {text : List Char} {v : Rat} (writes : Writes text v) :
    ∃ c rest, text = c :: rest ∧ c.isDigit = true := by
  obtain ⟨whole, fraction, e, digits_whole, _, ne_nil, rfl, _⟩ := writes
  obtain ⟨c, tail, rfl⟩ := List.exists_cons_of_ne_nil ne_nil
  refine ⟨c, (if fraction = [] then tail else tail ++ '.' :: fraction) ++ suffixText e, ?_,
    digits_whole c (by simp)⟩
  unfold runText
  split <;> rfl

/-- A minus is split off a numeral, and a digit shows that there is none. -/
theorem Writes.splitSign {text : List Char} {v : Rat} (writes : Writes text v) (negative : Bool) :
    splitSign (if negative then '-' :: text else text) = (negative, text) := by
  obtain ⟨c, rest, rfl, digit⟩ := writes.exists_cons
  cases negative with
  | true => rfl
  | false => exact splitSign_of_digit digit rest

theorem Writes.exists_decimal {text : List Char} {v : Rat} (writes : Writes text v) :
    ∃ d, decimal? text = some d ∧ d.value = v := by
  obtain ⟨whole, fraction, e, digits_whole, digits_fraction, ne_nil, rfl, rfl⟩ := writes
  exact ⟨_, decimal?_runText digits_whole digits_fraction ne_nil e, rfl⟩

/-- A numeral denotes the double nearest to its value. -/
theorem Writes.ofNumeral? {text : List Char} {v : Rat} (writes : Writes text v)
    (negative : Bool) :
    Double.ofNumeral? (if negative then '-' :: text else text) = some (.nearest negative v) := by
  obtain ⟨d, read, rfl⟩ := writes.exists_decimal
  rw [← Decimal.toDouble_eq_nearest, Double.ofNumeral?, writes.splitSign]
  simp only [read]

end Numeral

end DeskCalculator
