import DeskCalculator.Proofs.Token.Runs
import DeskCalculator.Proofs.Token.Written

/-!
# Where scanning fails

Scanning fails where a run of digits and points holds a second point, and nowhere else. The first
such run of a text is reported up to its second point; but if the digits that it starts with were
read as the exponent of the literal before, they are left out.
-/
namespace DeskCalculator

open Numeral

/-! ## Literals with two points -/

variable {text front whole fraction back rest : List Char}

section Points

variable (digits_whole : AllDigits whole) (digits_fraction : AllDigits fraction)
include digits_whole digits_fraction

theorem throughSecondPoint_secondPointed (back : List Char) :
    throughSecondPoint (secondPointed whole fraction back) = secondPointed whole fraction [] := by
  have no_point {digits : List Char} (all : AllDigits digits) :
      ∀ c ∈ digits, (c != '.') = true := by
    intro c member
    refine bne_iff_ne.mpr ?_
    rintro rfl
    exact absurd (all '.' member) (by decide)
  have stop (rest : List Char) : ('.' :: rest).takeWhile (· != '.') = [] := rfl
  simp only [throughSecondPoint, secondPointed,
    takeWhile_append_of_stop (no_point digits_whole) (stop _),
    dropWhile_append_of_stop (no_point digits_whole) (stop _), List.drop_succ_cons, List.drop_zero,
    takeWhile_append_of_stop (no_point digits_fraction) (stop _), List.append_assoc,
    List.cons_append]

theorem literalAt_secondPointed (sign back : List Char) :
    literalAt sign (secondPointed whole fraction back) =
      .error (.malformedNumber (secondPointed whole fraction [])) := by
  have two := two_le_count_secondPointed whole fraction (back.takeWhile isRunChar)
  rw [literalAt, takeWhile_secondPointed digits_whole digits_fraction, if_neg (by omega),
    throughSecondPoint_secondPointed digits_whole digits_fraction]

theorem scanFrom_secondPointed (operandExpected : Bool) (back : List Char) :
    scanFrom operandExpected (secondPointed whole fraction back) =
      .error (.malformedNumber (secondPointed whole fraction [])) := by
  have literal := literalAt_secondPointed digits_whole digits_fraction [] back
  obtain ⟨c, rest, shape, run⟩ := exists_secondPointed_eq_cons digits_whole fraction back
  rw [shape] at literal ⊢
  rw [scanFrom, if_pos run, literal]
  rfl

/-- Behind a single character it is the same, for the minus of a literal is no part of what is
reported. -/
theorem scanFrom_cons_secondPointed {c : Char} {token : Token}
    (single : Token.ofChar? c = some token) (operandExpected : Bool) (back : List Char) :
    scanFrom operandExpected (c :: secondPointed whole fraction back) =
      .error (.malformedNumber (secondPointed whole fraction [])) := by
  have run := (not_isRunChar_of_ofChar? single).1
  -- either it is the minus of the literal with the two points, or a token of its own
  by_cases signed : c = '-' ∧ operandExpected = true ∧
      signsLiteral (secondPointed whole fraction back) = true
  · rw [scanFrom, if_neg (by simp [run]), if_pos signed,
      literalAt_secondPointed digits_whole digits_fraction]
    rfl
  · rw [scanFrom_single single (fun minus expected => Bool.eq_false_iff.mpr fun signs =>
      signed ⟨minus, expected, signs⟩), scanFrom_secondPointed digits_whole digits_fraction]
    rfl

end Points

/-! ## Literals in front of a run -/

/-- What makes an exponent of the digits behind it: a mark and perhaps a sign. -/
inductive OpensExponent : List Char → Prop where
  | intro {mark : Char} {sign : List Char} (is_mark : isExponentMark mark = true)
      (signed : sign = [] ∨ sign = ['+'] ∨ sign = ['-']) : OpensExponent (mark :: sign)

theorem StopsRun.signsLiteral_append (stops : StopsRun text) (some_text : text ≠ [])
    (rest : List Char) : signsLiteral (text ++ rest) = signsLiteral text := by
  obtain ⟨c, member, stop⟩ := stops.exists_stop some_text
  rw [signsLiteral, takeWhile_append_left member stop, signsLiteral]

/-- No exponent of a text that stops a run reaches into the run behind it, unless all of the text is
a mark with its sign. -/
theorem opensExponent_or (stops : StopsRun text) (some_text : text ≠ []) :
    OpensExponent text ∨ ∀ rest, exponentPart (text ++ rest) = exponentPart text := by
  obtain ⟨mark, tail, rfl⟩ := List.exists_cons_of_ne_nil some_text
  cases is_mark : isExponentMark mark with
  | false =>
    right
    intro rest
    rw [List.cons_append, exponentPart_cons, exponentPart_cons, if_neg (by simp [is_mark]),
      if_neg (by simp [is_mark])]
  | true =>
    have split := List.prefix_iff_eq_append.mp (exponentSign_isPrefix tail)
    by_cases opens : tail.drop (exponentSign tail).length = []
    · left
      rw [opens, List.append_nil] at split
      rw [← split]
      exact .intro is_mark (exponentSign_eq tail)
    · right
      intro rest
      -- behind the sign there is a character that is no digit, before the run begins
      have suffix := (List.drop_suffix (exponentSign tail).length tail).trans
        (List.suffix_cons mark tail)
      obtain ⟨c, member, stop⟩ := (stops.of_isSuffix suffix).exists_stop opens
      have no_digit : c.isDigit = false := (Bool.or_eq_false_iff.mp stop).1
      have sign : exponentSign (tail ++ rest) = exponentSign tail := by
        cases tail with
        | nil => exact absurd List.drop_nil opens
        | cons c tail => rfl
      have digits : exponentDigits (tail ++ rest) = exponentDigits tail := by
        rw [exponentDigits, sign, List.drop_append_of_le_length (exponentSign_isPrefix _).length_le,
          takeWhile_append_left member no_digit, exponentDigits]
      rw [List.cons_append, exponentPart_cons, exponentPart_cons, sign, digits]

namespace OpensExponent

variable (opens : OpensExponent text) (point : ∀ c ∈ rest.head?, c = '.')
include opens point

theorem exponentPart_append (digits : AllDigits whole) (some_digit : whole ≠ []) :
    exponentPart (text ++ (whole ++ rest)) = text ++ whole := by
  obtain ⟨is_mark, signed⟩ := opens
  refine exponentPart_append_of_digits signed digits some_digit is_mark ?_
  exact takeWhile_eq_nil fun c first => by rw [point c first]; rfl

theorem exponentPart_eq_nil : exponentPart (text ++ rest) = [] := by
  obtain ⟨_, signed⟩ := opens
  cases rest with
  | nil =>
    rcases signed with rfl | rfl | rfl <;> simp [exponentPart_cons, exponentDigits, exponentSign]
  | cons c rest =>
    rw [point c rfl]
    rcases signed with rfl | rfl | rfl <;> simp [exponentPart_cons, exponentDigits, exponentSign]

end OpensExponent

section Literal

variable {c : Char} (member : c ∈ text) (stop : isRunChar c = false)
include member stop

/-- A literal that no exponent leads out of its text is read from this text alone. -/
theorem literalAt_append_of_exponentPart
    (same : exponentPart (text.dropWhile isRunChar ++ rest) =
      exponentPart (text.dropWhile isRunChar)) (sign : List Char) :
    literalAt sign (text ++ rest) = literalAt sign text ∧
      afterLiteral (text ++ rest) = afterLiteral text ++ rest := by
  simp only [literalAt, afterLiteral, takeWhile_append_left member stop,
    dropWhile_append_left member stop, same, true_and]
  exact List.drop_append_of_le_length (exponentPart_isPrefix _).length_le

/-- With an exponent that ends behind its text, all of the text is the literal. -/
theorem literalAt_append_exponent (single : SinglePointed text)
    (exponent : exponentPart (text.dropWhile isRunChar ++ (whole ++ rest)) =
      text.dropWhile isRunChar ++ whole) (sign : List Char) :
    literalAt sign (text ++ (whole ++ rest)) = .ok (.literal (sign ++ (text ++ whole))) ∧
      afterLiteral (text ++ (whole ++ rest)) = rest := by
  have few : (text.takeWhile isRunChar).count '.' ≤ 1 := single.pointsAtStart_le
  have split : text.takeWhile isRunChar ++ text.dropWhile isRunChar = text :=
    List.takeWhile_append_dropWhile
  simp only [literalAt, afterLiteral, takeWhile_append_left member stop,
    dropWhile_append_left member stop, exponent, few, ↓reduceIte]
  constructor
  · rw [List.append_assoc sign, ← List.append_assoc (text.takeWhile isRunChar), split]
  · rw [← List.append_assoc, List.drop_left]

end Literal

/-- A literal in front of a run either ends before it, or it has an exponent that ends with the
digits of this run. -/
theorem literalAt_append_or (digits : AllDigits whole) (stops : StopsRun text)
    (some_text : text ≠ []) (single : SinglePointed text) (sign : List Char) :
    (∀ rest, (∀ c ∈ rest.head?, c = '.') →
      literalAt sign (text ++ (whole ++ rest)) = literalAt sign text ∧
        afterLiteral (text ++ (whole ++ rest)) = afterLiteral text ++ (whole ++ rest)) ∨
    (whole ≠ [] ∧ OpensExponent (text.dropWhile isRunChar)) ∧
      ∀ rest, (∀ c ∈ rest.head?, c = '.') →
        literalAt sign (text ++ (whole ++ rest)) = .ok (.literal (sign ++ (text ++ whole))) ∧
          afterLiteral (text ++ (whole ++ rest)) = rest := by
  obtain ⟨c, member, stop⟩ := stops.exists_stop some_text
  have suffix : text.dropWhile isRunChar <:+ text := List.dropWhile_suffix _
  rcases opensExponent_or (stops.of_isSuffix suffix) (stops.dropWhile_ne_nil some_text) with
    opens | same
  · by_cases no_digit : whole = []
    · -- the mark has a point or nothing behind it, so no exponent is read in either text
      left
      intro rest point
      have alone : exponentPart (text.dropWhile isRunChar ++ []) = [] :=
        opens.exponentPart_eq_nil (by simp)
      rw [List.append_nil] at alone
      rw [no_digit, List.nil_append]
      exact literalAt_append_of_exponentPart member stop
        ((opens.exponentPart_eq_nil point).trans alone.symm) sign
    · right
      refine ⟨⟨no_digit, opens⟩, fun rest point => ?_⟩
      exact literalAt_append_exponent member stop single
        (opens.exponentPart_append point digits no_digit) sign
  · left
    intro rest _
    exact literalAt_append_of_exponentPart member stop (same (whole ++ rest)) sign

/-! ## Scanning up to the second point -/

/-- The digits that the last of the tokens has in its exponent. -/
def exponentDigitsAtEnd (tokens : List Token) : List Char :=
  match tokens.getLast? with
  | some (.literal text) => exponentDigits ((text.dropWhile (!isExponentMark ·)).drop 1)
  | _ => []

/-- The digits at the end of a text with these tokens, less those that an exponent has taken. -/
def untaken (tokens : List Token) (digits : List Char) : List Char :=
  digits.drop (exponentDigitsAtEnd tokens).length

theorem untaken_cons (token : Token) {tokens : List Token} {digits : List Char}
    (some_token : digits ≠ [] → tokens ≠ []) :
    untaken (token :: tokens) digits = untaken tokens digits := by
  by_cases no_digit : digits = []
  · rw [untaken, untaken, no_digit, List.drop_nil, List.drop_nil]
  · obtain ⟨next, tokens, rfl⟩ := List.exists_cons_of_ne_nil (some_token no_digit)
    rw [untaken, untaken, exponentDigitsAtEnd, exponentDigitsAtEnd, List.getLast?_cons_cons]

variable {operandExpected : Bool} {tokens : List Token}

theorem untaken_of_unmarked (scanned : scanFrom operandExpected text = .ok tokens)
    (unmarked : ∀ c ∈ text, isExponentMark c = false) (digits : List Char) :
    untaken tokens digits = digits := by
  suffices none : exponentDigitsAtEnd tokens = [] by
    rw [untaken, none, List.length_nil, List.drop_zero]
  rw [exponentDigitsAtEnd]
  split
  · next literal last =>
    -- a literal is written with characters of the text, and none of them is a mark
    have no_mark : literal.dropWhile (!isExponentMark ·) = [] := by
      refine List.dropWhile_eq_nil_iff.mpr fun c member => ?_
      have in_tokens : c ∈ tokens.flatMap Token.text :=
        List.mem_flatMap.mpr ⟨_, List.mem_of_getLast? last, member⟩
      have in_text := (scans_of_scanFrom scanned).consistsOf.flatMap_text_sublist.subset in_tokens
      rw [unmarked c in_text, Bool.not_false]
    rw [no_mark]
    rfl
  · rfl

/-- Where a literal ends in an exponent with these digits, none of them is left. -/
theorem untaken_of_opensExponent {opening : List Char}
    (unmarked : ∀ c ∈ front, isExponentMark c = false) (opens : OpensExponent opening)
    (digits : AllDigits whole) (some_digit : whole ≠ []) :
    untaken [.literal (front ++ (opening ++ whole))] whole = [] := by
  obtain @⟨mark, sign, is_mark, signed⟩ := opens
  have before : ∀ c ∈ front, (!isExponentMark c) = true := fun c member => by
    rw [unmarked c member, Bool.not_false]
  have stop : (mark :: sign ++ whole).takeWhile (!isExponentMark ·) = [] := by simp [is_mark]
  have digits_eq := exponentDigits_append signed digits some_digit List.takeWhile_nil
  rw [List.append_nil] at digits_eq
  have taken : exponentDigitsAtEnd [.literal (front ++ (mark :: sign ++ whole))] = whole := by
    simp only [exponentDigitsAtEnd, List.getLast?_singleton]
    rwa [dropWhile_append_of_stop before stop, List.cons_append, List.drop_succ_cons,
      List.drop_zero]
  rw [untaken, taken, List.drop_length]

theorem ne_nil_of_scanFrom_append (scanned : scanFrom operandExpected (text ++ whole) = .ok tokens)
    (digits : AllDigits whole) (some_digit : whole ≠ []) : tokens ≠ [] := by
  rintro rfl
  have scans := scans_of_scanFrom scanned
  have none := scans.consistsOf.filter_flatMap_text fun _ => scans.not_isTokenChar_of_mem_left
  -- a digit is never skipped, so some token is written with it
  obtain ⟨c, tail, rfl⟩ := List.exists_cons_of_ne_nil some_digit
  have written := isTokenChar_of_isRunChar (digits.isRunChar c List.mem_cons_self)
  exact List.filter_eq_nil_iff.mp none.symm c (by simp) written

/-- Reading what comes behind the digits of a run gives tokens where nothing does, but fails where
it is the run's two points. -/
def FailsBehind (whole fraction back : List Char)
    (read : List Char → Except Fault (List Token)) : Prop :=
  ∃ tokens, read [] = .ok tokens ∧ read (secondPointed [] fraction back) =
    .error (.malformedNumber (secondPointed (untaken tokens whole) fraction []))

variable {read other : List Char → Except Fault (List Token)}

theorem FailsBehind.congr (fails : FailsBehind whole fraction back read)
    (same : ∀ rest, (∀ c ∈ rest.head?, c = '.') → other rest = read rest) :
    FailsBehind whole fraction back other := by
  obtain ⟨tokens, ok, error⟩ := fails
  refine ⟨tokens, (same [] (by simp)).trans ok, (same _ ?_).trans error⟩
  simp [secondPointed]

/-- A text without any mark takes no digits into an exponent. -/
theorem failsBehind_of_unmarked (single : SinglePointed text)
    (unmarked : ∀ c ∈ text, isExponentMark c = false)
    (ok : read [] = scanFrom operandExpected text)
    (error : read (secondPointed [] fraction back) =
      .error (.malformedNumber (secondPointed whole fraction []))) :
    FailsBehind whole fraction back read := by
  obtain ⟨tokens, scanned⟩ := exists_scanFrom operandExpected single
  refine ⟨tokens, ok.trans scanned, ?_⟩
  rw [untaken_of_unmarked scanned unmarked]
  exact error

theorem FailsBehind.cons (digits : AllDigits whole) (fails : FailsBehind whole fraction back
      fun rest => scanFrom operandExpected (text ++ (whole ++ rest))) (token : Token) :
    FailsBehind whole fraction back
      fun rest => (scanFrom operandExpected (text ++ (whole ++ rest))).map (token :: ·) := by
  obtain ⟨tokens, ok, error⟩ := fails
  have scanned : scanFrom operandExpected (text ++ whole) = .ok tokens := by
    rw [← List.append_nil whole]
    exact ok
  have some_token := ne_nil_of_scanFrom_append scanned digits
  refine ⟨token :: tokens, congrArg (Except.map (token :: ·)) ok, ?_⟩
  rw [untaken_cons token some_token]
  exact congrArg (Except.map (token :: ·)) error

section Scan

variable (digits_whole : AllDigits whole) (digits_fraction : AllDigits fraction)
include digits_whole digits_fraction

/-- The same holds behind a literal, whether it ends before the run or takes the digits of it. -/
theorem failsBehind_literal (stops : StopsRun text) (some_text : text ≠ [])
    (single : SinglePointed text) (sign : List Char)
    (unmarked : ∀ c ∈ sign, isExponentMark c = false)
    (behind : FailsBehind whole fraction back
      fun rest => scanFrom false (afterLiteral text ++ (whole ++ rest))) :
    FailsBehind whole fraction back fun rest =>
      (literalAt sign (text ++ (whole ++ rest))).bind fun token =>
        (scanFrom false (afterLiteral (text ++ (whole ++ rest)))).map (token :: ·) := by
  rcases literalAt_append_or digits_whole stops some_text single sign with
    apart | ⟨⟨some_digit, opens⟩, taken⟩
  · -- the literal is the same before any rest, and behind it the scanner comes to the run
    obtain ⟨token, literal⟩ := exists_literalAt single sign
    refine (behind.cons digits_whole token).congr fun rest point => ?_
    rw [(apart rest point).1, (apart rest point).2, literal]
    rfl
  · -- the points are left for a literal of their own
    have points : ∀ c ∈ (secondPointed [] fraction back).head?, c = '.' := by simp [secondPointed]
    have none : AllDigits [] := by simp [AllDigits]
    have left : untaken [.literal (sign ++ (text ++ whole))] whole = [] := by
      have before : ∀ c ∈ sign ++ text.takeWhile isRunChar, isExponentMark c = false := by
        intro c member
        rcases List.mem_append.mp member with in_sign | in_run
        · exact unmarked c in_sign
        · exact not_isExponentMark_of_isRunChar (List.mem_takeWhile_imp in_run)
      have all := untaken_of_opensExponent before opens digits_whole some_digit
      rwa [List.append_assoc, ← List.append_assoc (text.takeWhile isRunChar),
        List.takeWhile_append_dropWhile] at all
    refine ⟨[.literal (sign ++ (text ++ whole))], ?_, ?_⟩
    · dsimp only
      rw [(taken [] (by simp)).1, (taken [] (by simp)).2, scanFrom]
      rfl
    · dsimp only
      rw [(taken _ points).1, (taken _ points).2, left,
        scanFrom_secondPointed none digits_fraction]
      rfl

/-- Scanning goes on to the first run with a second point, and stops there. -/
theorem failsBehind_scanFrom (operandExpected : Bool) (single : SinglePointed front)
    (stops : StopsRun front) :
    FailsBehind whole fraction back
      fun rest => scanFrom operandExpected (front ++ (whole ++ rest)) := by
  have single_whole : SinglePointed whole :=
    singlePointed_of_count_le (by rw [digits_whole.count_point]; exact Nat.zero_le 1)
  have unmarked : ∀ c ∈ whole, isExponentMark c = false :=
    fun c member => not_isExponentMark_of_isRunChar (digits_whole.isRunChar c member)
  -- the cases of the scanner: the end, a literal, a signed literal, a token, a skipped character
  induction operandExpected, front using scanFrom.induct with
  | case1 operandExpected =>
    exact failsBehind_of_unmarked single_whole unmarked
      (by rw [List.nil_append, List.append_nil])
      (scanFrom_secondPointed digits_whole digits_fraction operandExpected back)
  | case2 operandExpected c front run ih =>
    have suffix := (afterLiteral_isSuffix front).trans (List.suffix_cons c front)
    have behind := ih (single.of_isSuffix suffix) (stops.of_isSuffix suffix)
    rw [← afterLiteral_cons run] at behind
    refine (failsBehind_literal digits_whole digits_fraction stops (by simp) single []
      (by simp) behind).congr fun rest _ => ?_
    rw [List.cons_append, scanFrom, if_pos run, afterLiteral_cons run]
  | case3 operandExpected c front run signed ih =>
    obtain ⟨rfl, rfl, signs⟩ := signed
    have some_front : front ≠ [] := by
      rintro rfl
      cases signs
    have inner := single.of_isSuffix (List.suffix_cons '-' front)
    have inner_stops := stops.of_isSuffix (List.suffix_cons '-' front)
    have suffix := afterLiteral_isSuffix front
    have behind := ih (inner.of_isSuffix suffix) (inner_stops.of_isSuffix suffix)
    refine (failsBehind_literal digits_whole digits_fraction inner_stops some_front inner ['-']
      (by simp [isExponentMark]) behind).congr fun rest _ => ?_
    -- the digit that gave the minus to the literal stands before the run
    have signs_on := (inner_stops.signsLiteral_append some_front (whole ++ rest)).trans signs
    rw [List.cons_append, scanFrom, if_neg run, if_pos ⟨rfl, rfl, signs_on⟩]
  | case4 operandExpected c front run signed token written ih =>
    obtain ⟨no_run, no_mark⟩ := not_isRunChar_of_ofChar? written
    by_cases last : front = []
    · -- a minus may belong to the literal with the two points, so the whole text is read at once
      subst last
      exact failsBehind_of_unmarked ((singlePointed_cons_of_stop no_run).mpr single_whole)
        (by simpa [no_mark] using unmarked) (by rw [List.append_nil]; rfl)
        (scanFrom_cons_secondPointed digits_whole digits_fraction written operandExpected back)
    · have inner_stops := stops.of_isSuffix (List.suffix_cons c front)
      have behind := ih (single.of_isSuffix (List.suffix_cons c front)) inner_stops
      refine (behind.cons digits_whole token).congr fun rest _ => ?_
      have signs_on := inner_stops.signsLiteral_append last (whole ++ rest)
      exact scanFrom_single written fun minus expected => signs_on.trans
        (Bool.eq_false_iff.mpr fun signs => signed ⟨minus, expected, signs⟩)
  | case5 operandExpected c front run signed none ih =>
    have suffix := List.suffix_cons c front
    refine (ih (single.of_isSuffix suffix) (stops.of_isSuffix suffix)).congr fun rest _ => ?_
    exact scanFrom_skipped (Bool.eq_false_iff.mpr run) none operandExpected _

end Scan

/-! ## Texts that cannot be scanned -/

/-- The tokens of the text up to the digits of the run, and the fault of the whole text. -/
theorem SecondPoint.exists_scan (found : SecondPoint text front whole fraction back) :
    ∃ tokens, scan (front ++ whole) = .ok tokens ∧ scan text =
      .error (.malformedNumber (secondPointed (untaken tokens whole) fraction [])) := by
  have fails : FailsBehind whole fraction back _ :=
    failsBehind_scanFrom found.digits_whole found.digits_fraction true found.first found.before
  obtain ⟨tokens, ok, error⟩ := fails
  refine ⟨tokens, ?_, ?_⟩
  · rw [← List.append_nil whole]
    exact ok
  · rw [found.text_eq]
    exact error

theorem exists_scan_eq_error_iff : (∃ fault, scan text = .error fault) ↔ ¬SinglePointed text := by
  constructor
  · rintro ⟨fault, failed⟩ single
    obtain ⟨tokens, scanned⟩ := exists_scanFrom true single
    rw [scan, scanned] at failed
    cases failed
  · intro double
    obtain ⟨front, whole, fraction, back, found⟩ := exists_secondPoint double
    obtain ⟨tokens, _, failed⟩ := found.exists_scan
    exact ⟨_, failed⟩

/-- Scanning a text fails if and only if a longest run of digits and points in it has two points or
more. What is reported is then the first such run up to its second point, less the digits at its
start if the literal before has taken them into its exponent. -/
theorem scan_eq_error_iff (text : List Char) :
    ((∃ fault, scan text = .error fault) ↔
      ∃ front run back, text = front ++ (run ++ back) ∧ IsRun front run back ∧
        2 ≤ run.count '.') ∧
    ∀ fault, scan text = .error fault ↔
      ∃ front whole fraction back tokens, SecondPoint text front whole fraction back ∧
        scan (front ++ whole) = .ok tokens ∧
        fault = .malformedNumber (untaken tokens whole ++ '.' :: (fraction ++ ['.'])) := by
  refine ⟨exists_scan_eq_error_iff.trans not_singlePointed_iff, fun fault => ⟨fun failed => ?_, ?_⟩⟩
  · obtain ⟨front, whole, fraction, back, found⟩ :=
      exists_secondPoint (exists_scan_eq_error_iff.mp ⟨fault, failed⟩)
    obtain ⟨tokens, scanned, reported⟩ := found.exists_scan
    rw [failed] at reported
    exact ⟨front, whole, fraction, back, tokens, found, scanned, Except.error.inj reported⟩
  · rintro ⟨front, whole, fraction, back, tokens, found, scanned, rfl⟩
    obtain ⟨same, again, reported⟩ := found.exists_scan
    -- the tokens up to the digits of the run are those that tell how many of them are taken
    rw [scanned] at again
    cases again
    exact reported

/-- The exponent has taken the five, so the first point opens a literal. -/
example : scan "2-1e5.5.3".toList = .error (.malformedNumber ".5.".toList) := by decide +kernel

end DeskCalculator
