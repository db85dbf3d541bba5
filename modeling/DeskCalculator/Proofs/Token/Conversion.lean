import DeskCalculator.Evaluation
import DeskCalculator.Proofs.Failure
import DeskCalculator.Proofs.Token.Literal
import DeskCalculator.Proofs.Token.Written

/-!
# Literals as numerals

A literal is scanned by rules of its own, and later it is read as a numeral. The two agree on all
literals but a point without digits: alone or with an exponent it is scanned as a literal, but it
denotes no number. So where a text has tokens, nothing else can make a number of it malformed.
-/
namespace DeskCalculator

open Numeral

/-! ## The literals that are scanned -/

/-- The text of a literal: a run of digits with at most one point, perhaps with an exponent. A minus
stands before it only if there is a digit in the run. -/
inductive IsLiteral : List Char → Prop where
  | intro {sign run exponent : List Char} (all : ∀ c ∈ run, isRunChar c = true)
      (some_char : run ≠ []) (few : run.count '.' ≤ 1) (whole : exponent = [] ∨ IsExponent exponent)
      (signed : sign = [] ∨ sign = ['-'] ∧ ∃ c ∈ run, c.isDigit = true) :
      IsLiteral (sign ++ (run ++ exponent))

theorem isLiteral_of_literalAt {sign text literal : List Char}
    (read : literalAt sign text = .ok (.literal literal))
    (some_char : text.takeWhile isRunChar ≠ [])
    (signed : sign = [] ∨ sign = ['-'] ∧ signsLiteral text = true) : IsLiteral literal := by
  rw [literalAt] at read
  split at read
  · next few =>
    cases read
    rw [List.append_assoc]
    exact .intro (fun _ => List.mem_takeWhile_imp) some_char few (exponentPart_eq_nil_or _)
      (signed.imp_right (And.imp_right List.any_eq_true.mp))
  · cases read

theorem Scans.isLiteral {operandExpected : Bool} {text left literal : List Char}
    {tokens : List Token} (scans : Scans operandExpected text tokens left)
    (member : .literal literal ∈ tokens) : IsLiteral literal := by
  induction scans with
  | nil => cases member
  | literal run read _ ih =>
    rcases List.mem_cons.mp member with rfl | member
    · exact isLiteral_of_literalAt read (by simp [run]) (.inl rfl)
    · exact ih member
  | signed signs read _ ih =>
    rcases List.mem_cons.mp member with rfl | member
    · refine isLiteral_of_literalAt read ?_ (.inr ⟨rfl, signs⟩)
      intro none
      rw [signsLiteral, none] at signs
      cases signs
    · exact ih member
  | single single _ _ ih =>
    rcases List.mem_cons.mp member with rfl | member
    · exact absurd rfl ((Token.text_of_ofChar? single).2 literal)
    · exact ih member
  | skipped _ _ _ ih => exact ih member

/-! ## Reading a literal -/

theorem exists_exponent?_eq {sign digits : List Char}
    (signed : sign = [] ∨ sign = ['+'] ∨ sign = ['-']) (all : AllDigits digits)
    (some_digit : digits ≠ []) : ∃ k, exponent? (sign ++ digits) = some k := by
  have whole : digits ≠ [] ∧ digits.all Char.isDigit = true :=
    ⟨some_digit, List.all_eq_true.mpr all⟩
  rcases signed with rfl | rfl | rfl
  · obtain ⟨c, rest, rfl⟩ := List.exists_cons_of_ne_nil some_digit
    rw [List.nil_append, exponent?, splitSign_of_digit (all c List.mem_cons_self)]
    exact ⟨_, if_pos whole⟩
  · exact ⟨_, if_pos whole⟩
  · exact ⟨_, if_pos whole⟩

section Exponent

variable {exponent : List Char} (whole : exponent = [] ∨ IsExponent exponent)
include whole

theorem exponent_stop : exponent.takeWhile Char.isDigit = [] := by
  rcases whole with rfl | is_exponent
  · rfl
  · exact takeWhile_isDigit_eq_nil is_exponent.takeWhile_isRunChar

theorem exists_decimal?_digits {digits : List Char} (all : AllDigits digits)
    (some_digit : digits ≠ []) : ∃ d, decimal? (digits ++ exponent) = some d := by
  have stop := exponent_stop whole
  rw [decimal?, takeWhile_append_of_stop all stop, dropWhile_append_of_stop all stop]
  rcases whole with rfl | ⟨is_mark, signed, all_digits, some_exponent⟩
  · simp [some_digit]
  · obtain ⟨k, read⟩ := exists_exponent?_eq signed all_digits some_exponent
    -- the mark is no point, so all of the suffix is behind the digits
    rcases (isExponentMark_iff _).mp is_mark with rfl | rfl <;>
      simp [some_digit, isExponentMark, read]

theorem exists_decimal?_pointed {digits fraction : List Char} (all : AllDigits digits)
    (all_fraction : AllDigits fraction) (some_digit : digits ++ fraction ≠ []) :
    ∃ d, decimal? (digits ++ '.' :: (fraction ++ exponent)) = some d := by
  have stop := exponent_stop whole
  have point : ('.' :: (fraction ++ exponent)).takeWhile Char.isDigit = [] := rfl
  rw [decimal?, takeWhile_append_of_stop all point, dropWhile_append_of_stop all point]
  simp only [takeWhile_append_of_stop all_fraction stop,
    dropWhile_append_of_stop all_fraction stop, some_digit, ↓reduceIte]
  rcases whole with rfl | ⟨is_mark, signed, all_digits, some_exponent⟩
  · exact ⟨_, rfl⟩
  · obtain ⟨k, read⟩ := exists_exponent?_eq signed all_digits some_exponent
    simp [is_mark, read]

/-- A run with a digit is read to its end, and so is an exponent behind it. -/
theorem exists_decimal?_run {run : List Char} (all : ∀ c ∈ run, isRunChar c = true)
    (few : run.count '.' ≤ 1) (digit : ∃ c ∈ run, c.isDigit = true) :
    ∃ d, decimal? (run ++ exponent) = some d := by
  obtain ⟨c, member, is_digit⟩ := digit
  rcases Nat.le_one_iff_eq_zero_or_eq_one.mp few with none | one
  · exact exists_decimal?_digits whole (allDigits_of_count_point all none)
      (List.ne_nil_of_mem member)
  · obtain ⟨digits, fraction, rfl, all_digits, all_fraction⟩ := exists_of_count_point all one
    have some_digit : digits ++ fraction ≠ [] := by
      intro none
      obtain ⟨rfl, rfl⟩ := List.append_eq_nil_iff.mp none
      rw [List.mem_singleton.mp member] at is_digit
      exact absurd is_digit (by decide)
    rw [List.append_assoc, List.cons_append]
    exact exists_decimal?_pointed whole all_digits all_fraction some_digit

/-- A point without digits denotes no number. -/
theorem ofNumeral?_point : Double.ofNumeral? ('.' :: exponent) = none := by
  have stop := exponent_stop whole
  have no_decimal : decimal? ('.' :: exponent) = none := by
    simp [decimal?, stop]
  have no_name : named? false ('.' :: exponent) = none := by
    simp [named?]
  have no_sign : splitSign ('.' :: exponent) = (false, '.' :: exponent) := rfl
  rw [Double.ofNumeral?, no_sign]
  simp only [no_decimal, no_name]

end Exponent

/-! ## Literals and numerals -/

/-- Whether a digit stands before the exponent. -/
def hasDigit (literal : List Char) : Bool :=
  (literal.takeWhile (!isExponentMark ·)).any Char.isDigit

/-- A point without digits: alone, or with an exponent. -/
inductive LonePoint : List Char → Prop where
  | intro {exponent : List Char} (whole : exponent = [] ∨ IsExponent exponent) :
      LonePoint ('.' :: exponent)

theorem splitSign_of_isRunChar {c : Char} (run : isRunChar c = true) (rest : List Char) :
    splitSign (c :: rest) = (false, c :: rest) := by
  rcases Bool.or_eq_true_iff.mp run with digit | point
  · exact splitSign_of_digit digit rest
  · rw [eq_of_beq point]
    rfl

/-- A run without digits is a single point. -/
theorem eq_point_of_no_digit {run : List Char} (all : ∀ c ∈ run, isRunChar c = true)
    (some_char : run ≠ []) (few : run.count '.' ≤ 1) (none : ∀ c ∈ run, c.isDigit = false) :
    run = ['.'] := by
  have points : run = List.replicate run.length '.' := by
    refine List.eq_replicate_iff.mpr ⟨rfl, fun c member => ?_⟩
    exact eq_of_beq ((Bool.or_eq_true_iff.mp (all c member)).resolve_left (by simp [none c member]))
  have one : run.length = 1 := by
    have count : run.count '.' = run.length := by
      rw [points, List.count_replicate_self, List.length_replicate]
    have pos := List.length_pos_iff.mpr some_char
    omega
  rw [points, one, List.replicate_one]

/-- The exponent has no part in it. -/
theorem hasDigit_eq {sign run exponent : List Char} (all : ∀ c ∈ run, isRunChar c = true)
    (signed : sign = [] ∨ sign = ['-']) (whole : exponent = [] ∨ IsExponent exponent) :
    hasDigit (sign ++ (run ++ exponent)) = run.any Char.isDigit := by
  have stop : exponent.takeWhile (!isExponentMark ·) = [] := by
    rcases whole with rfl | ⟨is_mark, _, _, _⟩
    · rfl
    · simp [is_mark]
  have unmarked : ∀ c ∈ sign ++ run, (!isExponentMark c) = true := by
    intro c member
    rcases List.mem_append.mp member with in_sign | in_run
    · rcases signed with rfl | rfl
      · cases in_sign
      · rw [List.mem_singleton.mp in_sign]
        rfl
    · rw [not_isExponentMark_of_isRunChar (all c in_run), Bool.not_false]
  have no_digit : sign.any Char.isDigit = false := by
    rcases signed with rfl | rfl <;> rfl
  rw [hasDigit, ← List.append_assoc, takeWhile_append_of_stop unmarked stop, List.any_append,
    no_digit, Bool.false_or]

namespace IsLiteral

variable {literal : List Char} (scanned : IsLiteral literal)
include scanned

theorem exists_ofNumeral?_eq (digit : hasDigit literal = true) :
    ∃ x, Double.ofNumeral? literal = some x ∧ x ≠ .nan := by
  obtain @⟨sign, run, exponent, all, some_char, few, whole, signed⟩ := scanned
  rw [hasDigit_eq all (signed.imp_right And.left) whole] at digit
  obtain ⟨d, read⟩ := exists_decimal?_run whole all few (List.any_eq_true.mp digit)
  -- behind the sign there is a run, so no other sign is split off
  obtain ⟨negative, split⟩ : ∃ negative,
      splitSign (sign ++ (run ++ exponent)) = (negative, run ++ exponent) := by
    rcases signed with rfl | ⟨rfl, _⟩
    · obtain ⟨c, rest, rfl⟩ := List.exists_cons_of_ne_nil some_char
      exact ⟨false, splitSign_of_isRunChar (all c List.mem_cons_self) _⟩
    · exact ⟨true, rfl⟩
  refine ⟨.nearest negative d.value, ?_, Double.nearest_ne_nan negative d.value⟩
  rw [← Decimal.toDouble_eq_nearest, Double.ofNumeral?, split]
  simp only [read]

theorem lonePoint (no_digit : hasDigit literal = false) : LonePoint literal := by
  obtain @⟨sign, run, exponent, all, some_char, few, whole, signed⟩ := scanned
  rw [hasDigit_eq all (signed.imp_right And.left) whole] at no_digit
  have none : ∀ c ∈ run, c.isDigit = false := by simpa using no_digit
  -- a minus would not have been read with a run that lacks digits
  have unsigned : sign = [] := signed.resolve_right fun ⟨_, c, member, digit⟩ => by
    rw [none c member] at digit
    cases digit
  have point := eq_point_of_no_digit all some_char few none
  subst unsigned point
  exact .intro whole

theorem hasDigit_of_minus (minus : literal.head? = some '-') : hasDigit literal = true := by
  cases digit : hasDigit literal with
  | true => rfl
  | false =>
    obtain ⟨_⟩ := scanned.lonePoint digit
    cases minus

theorem hasDigit_eq_false_iff : hasDigit literal = false ↔ LonePoint literal := by
  refine ⟨scanned.lonePoint, ?_⟩
  rintro ⟨whole⟩
  have point : ∀ c ∈ ['.'], isRunChar c = true := by simp [isRunChar]
  exact hasDigit_eq point (.inl rfl) whole

theorem exists_ofNumeral?_iff : (∃ x, Double.ofNumeral? literal = some x) ↔
    hasDigit literal = true := by
  refine ⟨fun ⟨x, read⟩ => ?_, fun digit => ?_⟩
  · cases digit : hasDigit literal with
    | true => rfl
    | false =>
      obtain ⟨whole⟩ := scanned.lonePoint digit
      rw [ofNumeral?_point whole] at read
      cases read
  · obtain ⟨x, read, _⟩ := scanned.exists_ofNumeral?_eq digit
    exact ⟨x, read⟩

end IsLiteral

/-! ## Malformed numbers -/

/-- Reverse Polish order has no literals but those of the expression. -/
theorem mem_of_mem_polishFrom {waiting : List Operator} {outer : List (List Operator)}
    {tokens : List Token} {literal : List Char}
    (member : .literal literal ∈ polishFrom waiting outer tokens) : .literal literal ∈ tokens := by
  have kept := (polishFrom_perm waiting outer tokens).mem_iff.mp member
  rcases List.mem_append.mp kept with own | waits
  · exact (List.mem_filter.mp own).1
  · -- what waits is no literal
    simp at waits

/-- A malformed number is a literal that the machine was given and could not read. -/
theorem Machine.mem_of_run {α : Type} [Arithmetic α] {tokens : List Token} {literal : List Char}
    (failed : (run tokens : Except Fault α) = .error (.malformedNumber literal)) :
    .literal literal ∈ tokens ∧ (Arithmetic.literal? literal : Option α) = none := by
  rcases exists_fault?_of_run failed with ⟨token, member, depth, found⟩ | ⟨count, left⟩
  · obtain ⟨rfl, unreadable⟩ := token.eq_literal_of_fault? found
    exact ⟨member, unreadable⟩
  · cases left

/-- A scanned literal is a numeral if and only if a digit stands before its exponent: always where
it has a minus, and otherwise unless it is a point alone or with an exponent. None is read as
not-a-number. So where a text has tokens, only such a point can be a malformed number. -/
theorem literals_of_scan {text : List Char} {tokens : List Token}
    (scanned : scan text = .ok tokens) :
    (∀ literal, .literal literal ∈ tokens →
      ((∃ x, Double.ofNumeral? literal = some x) ↔ hasDigit literal = true) ∧
      (hasDigit literal = false ↔ LonePoint literal) ∧
      (literal.head? = some '-' → ∃ x, Double.ofNumeral? literal = some x) ∧
      Double.ofNumeral? literal ≠ some .nan) ∧
    ∀ literal, evaluate text = .error (.malformedNumber literal) →
      .literal literal ∈ tokens ∧ LonePoint literal := by
  have scans := scans_of_scanFrom scanned
  refine ⟨fun literal member => ?_, fun literal failed => ?_⟩
  · have form := scans.isLiteral member
    have converts := form.exists_ofNumeral?_iff
    refine ⟨converts, form.hasDigit_eq_false_iff,
      fun minus => converts.mpr (form.hasDigit_of_minus minus), fun nan => ?_⟩
    obtain ⟨x, read, no_nan⟩ := form.exists_ofNumeral?_eq (converts.mp ⟨_, nan⟩)
    rw [nan] at read
    exact no_nan (Option.some.inj read).symm
  · have some_text : text ≠ [] := by
      rintro rfl
      cases failed
    rw [evaluate_eq some_text, scanned] at failed
    -- the machine stopped at a literal that it could not read, and this comes from the text
    obtain ⟨in_order, unreadable⟩ := Machine.mem_of_run failed
    have member := mem_of_mem_polishFrom in_order
    have form := scans.isLiteral member
    refine ⟨member, form.lonePoint (Bool.eq_false_iff.mpr fun digit => ?_)⟩
    obtain ⟨x, read, _⟩ := form.exists_ofNumeral?_eq digit
    rw [show Double.ofNumeral? literal = none from unreadable] at read
    cases read

/-- A point may lack its digits on one side but not on both, even with an exponent; before such a
point a minus stands alone. -/
theorem literals_of_scan_points :
    let text := "-5.e-3-.5*.E+7--.".toList
    let tokens : List Token := [.literal "-5.e-3".toList, .operator (.binary .sub),
      .literal ".5".toList, .operator (.binary .mul), .literal ".E+7".toList,
      .operator (.binary .sub), .operator (.binary .sub), .literal ".".toList]
    scan text = .ok tokens ∧ (∃ x, Double.ofNumeral? "-5.e-3".toList = some x) ∧
      (∃ x, Double.ofNumeral? ".5".toList = some x) ∧
      (¬∃ x, Double.ofNumeral? ".E+7".toList = some x) ∧
      evaluate text = .error (.malformedNumber ".E+7".toList) ∧ LonePoint ".E+7".toList := by
  intro text tokens
  have scanned : scan text = .ok tokens := by decide +kernel
  obtain ⟨literals, malformed⟩ := literals_of_scan scanned
  have failed : evaluate text = .error (.malformedNumber ".E+7".toList) := by decide +kernel
  obtain ⟨member, point⟩ := malformed _ failed
  refine ⟨scanned, (literals "-5.e-3".toList (by decide)).2.2.1 rfl,
    (literals ".5".toList (by decide)).1.mpr (by decide), fun converts => ?_, failed, point⟩
  exact absurd ((literals _ member).1.mp converts) (by decide)

end DeskCalculator
