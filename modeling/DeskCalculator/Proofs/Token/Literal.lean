import DeskCalculator.Proofs.Number.Numerals
import DeskCalculator.Proofs.Token.Scan
import Mathlib.Data.List.TakeWhile

/-!
# Scanning a numeral

A numeral is scanned as a single literal, with or without a minus in front of it. Its run of digits
and points has no point, and then it is all digits, or a single one between two pieces of digits.
-/
namespace DeskCalculator

open Numeral

theorem isRunChar_of_isDigit {c : Char} (digit : c.isDigit = true) : isRunChar c = true := by
  rw [isRunChar, digit, Bool.true_or]

theorem Numeral.AllDigits.count_point {text : List Char} (digits : AllDigits text) :
    text.count '.' = 0 := by
  refine List.count_eq_zero.mpr fun member => ?_
  exact absurd (digits '.' member) (by decide)

theorem Numeral.AllDigits.isRunChar {text : List Char} (digits : AllDigits text) :
    ∀ c ∈ text, isRunChar c = true :=
  fun c member => isRunChar_of_isDigit (digits c member)

theorem allDigits_of_count_point {run : List Char} (all : ∀ c ∈ run, isRunChar c = true)
    (none : run.count '.' = 0) : AllDigits run := by
  intro c member
  refine (Bool.or_eq_true_iff.mp (all c member)).resolve_right fun point => ?_
  rw [eq_of_beq point] at member
  exact List.count_eq_zero.mp none member

theorem exists_of_count_point {run : List Char} (all : ∀ c ∈ run, isRunChar c = true)
    (one : run.count '.' = 1) :
    ∃ whole fraction, run = whole ++ '.' :: fraction ∧ AllDigits whole ∧ AllDigits fraction := by
  obtain ⟨whole, fraction, rfl⟩ := List.append_of_mem (List.count_pos_iff.mp (one ▸ Nat.one_pos))
  rw [List.count_append, List.count_cons_self] at one
  refine ⟨whole, fraction, rfl, allDigits_of_count_point (fun c member => ?_) (by omega),
    allDigits_of_count_point (fun c member => ?_) (by omega)⟩
  · exact all c (List.mem_append_left _ member)
  · exact all c (List.mem_append_right _ (List.mem_cons_of_mem _ member))

/-- A run of digits with at most one point is read up to its end. -/
theorem runText_isRunChar {whole fraction : List Char} (digits_whole : AllDigits whole)
    (digits_fraction : AllDigits fraction) :
    ∀ c ∈ runText whole fraction, isRunChar c = true := by
  intro c member
  unfold runText at member
  split at member
  · exact digits_whole.isRunChar c member
  · rcases List.mem_append.mp member with first | second
    · exact digits_whole.isRunChar c first
    · rcases List.mem_cons.mp second with rfl | second
      · rfl
      · exact digits_fraction.isRunChar c second

theorem runText_count_point {whole fraction : List Char} (digits_whole : AllDigits whole)
    (digits_fraction : AllDigits fraction) : (runText whole fraction).count '.' ≤ 1 := by
  unfold runText
  split
  · rw [digits_whole.count_point]
    exact Nat.zero_le 1
  · rw [List.count_append, List.count_cons_self, digits_whole.count_point,
      digits_fraction.count_point]

theorem suffixText_stop_run (e : Option Int) : (suffixText e).takeWhile isRunChar = [] := by
  cases e <;> rfl

theorem exponentPart_suffixText (e : Option Int) : exponentPart (suffixText e) = suffixText e := by
  cases e with
  | none => rfl
  | some k =>
    rw [suffixText, Decimal.signed]
    split
    · exact exponentPart_of_digits rfl (.inr (.inr rfl)) (allDigits_digits k.natAbs)
        (digits_ne_nil k.natAbs)
    · exact exponentPart_of_digits rfl (.inl rfl) (allDigits_digits k.natAbs)
        (digits_ne_nil k.natAbs)

namespace Numeral.Writes

variable {text : List Char} {v : Rat}

theorem literalAt (writes : Writes text v) (sign : List Char) :
    literalAt sign text = .ok (.literal (sign ++ text)) ∧ afterLiteral text = [] := by
  obtain ⟨whole, fraction, e, digits_whole, digits_fraction, _, rfl, _⟩ := writes
  have all := runText_isRunChar digits_whole digits_fraction
  have stop := suffixText_stop_run e
  constructor
  · simp only [DeskCalculator.literalAt, takeWhile_append_of_stop all stop,
      dropWhile_append_of_stop all stop, exponentPart_suffixText, List.append_assoc,
      runText_count_point digits_whole digits_fraction, ↓reduceIte]
  · simp only [afterLiteral, dropWhile_append_of_stop all stop, exponentPart_suffixText,
      List.drop_length]

/-- A numeral, behind a minus or not, is scanned as one literal. -/
theorem scan (writes : Writes text v) (negative : Bool) :
    scan (if negative then '-' :: text else text) =
      .ok [.literal (if negative then '-' :: text else text)] := by
  obtain ⟨c, rest, rfl, digit⟩ := writes.exists_cons
  have run := isRunChar_of_isDigit digit
  cases negative with
  | false =>
    obtain ⟨literal, whole⟩ := writes.literalAt []
    exact scanFrom_literal run literal whole true
  | true =>
    obtain ⟨literal, whole⟩ := writes.literalAt ['-']
    -- the minus stands where an operand is expected, right before a digit
    have signs : signsLiteral (c :: rest) = true := by
      simp [signsLiteral, run, digit]
    exact scanFrom_signed signs literal whole

end Numeral.Writes

end DeskCalculator
