import DeskCalculator.Proofs.Text.Span
import DeskCalculator.Token.Scan
import Mathlib.Data.List.TakeWhile

/-!
# Scanning a text in two pieces

Where a text is cut so that no literal goes on behind the cut, the two pieces are scanned apart: the
tokens of the whole are those of the front followed by those of the rest, and all that the rest has
to know of the front is whether an operand may come next. A text that has nothing in it with which a
literal could go on is scanned character by character.
-/
namespace DeskCalculator

/-! ## Single characters -/

theorem isExponentMark_iff (c : Char) :
    Numeral.isExponentMark c = true ↔ c = 'e' ∨ c = 'E' := by
  simp [Numeral.isExponentMark]

theorem not_isExponentMark_of_isRunChar {c : Char} (run : isRunChar c = true) :
    Numeral.isExponentMark c = false := by
  refine Bool.eq_false_iff.mpr fun mark => ?_
  rcases (isExponentMark_iff c).mp mark with rfl | rfl <;> exact absurd run (by decide)

/-- The characters that are tokens of their own. -/
def Token.symbols : List Char := "()+-*/^√".toList

theorem Token.mem_symbols_of_ofChar? {c : Char} {token : Token}
    (single : Token.ofChar? c = some token) : c ∈ Token.symbols := by
  obtain ⟨text, no_literal⟩ := Token.text_of_ofChar? single
  rcases token with literal | op | _ | _
  · exact absurd rfl (no_literal literal)
  · cases text
    rcases op with op | _
    · cases op <;> decide
    · decide
  · cases text
    decide
  · cases text
    decide

/-- No token written with a single character starts like a literal. -/
theorem not_isRunChar_of_ofChar? {c : Char} {token : Token}
    (single : Token.ofChar? c = some token) :
    isRunChar c = false ∧ Numeral.isExponentMark c = false := by
  have none : (Token.symbols.all fun d => !(isRunChar d || Numeral.isExponentMark d)) = true := by
    decide
  simpa using List.all_eq_true.mp none c (Token.mem_symbols_of_ofChar? single)

/-- A character that stands for itself is scanned as its token, unless it is the minus of a
literal. -/
theorem scanFrom_single {c : Char} {token : Token} (single : Token.ofChar? c = some token)
    {operandExpected : Bool} {rest : List Char}
    (unfused : c = '-' → operandExpected = true → signsLiteral rest = false) :
    scanFrom operandExpected (c :: rest) =
      (scanFrom token.expectsOperand rest).map (token :: ·) := by
  have run := (not_isRunChar_of_ofChar? single).1
  have no_sign : ¬(c = '-' ∧ operandExpected = true ∧ signsLiteral rest = true) := by
    rintro ⟨minus, expected, signs⟩
    rw [unfused minus expected] at signs
    cases signs
  rw [scanFrom, if_neg (by simp [run]), if_neg no_sign]
  simp only [single]

/-- A character that belongs to no token is skipped. -/
theorem scanFrom_skipped {c : Char} (run : isRunChar c = false) (none : Token.ofChar? c = none)
    (operandExpected : Bool) (rest : List Char) :
    scanFrom operandExpected (c :: rest) = scanFrom operandExpected rest := by
  have no_minus : c ≠ '-' := by
    rintro rfl
    cases none
  rw [scanFrom, if_neg (by simp [run]), if_neg (by simp [no_minus])]
  simp only [none]

/-! ## Single literals -/

theorem afterLiteral_cons {c : Char} (run : isRunChar c = true) (rest : List Char) :
    afterLiteral (c :: rest) = afterLiteral rest := by
  simp only [afterLiteral, List.dropWhile_cons, run, ↓reduceIte]

/-- A literal with nothing behind it is scanned as one token, wherever it stands. -/
theorem scanFrom_literal {c : Char} {rest : List Char} {token : Token} (run : isRunChar c = true)
    (literal : literalAt [] (c :: rest) = .ok token) (whole : afterLiteral (c :: rest) = [])
    (operandExpected : Bool) : scanFrom operandExpected (c :: rest) = .ok [token] := by
  rw [scanFrom, if_pos run, literal, ← afterLiteral_cons run, whole, scanFrom]
  rfl

/-- So is one with its sign, where an operand is expected. -/
theorem scanFrom_signed {text : List Char} {token : Token} (signs : signsLiteral text = true)
    (literal : literalAt ['-'] text = .ok token) (whole : afterLiteral text = []) :
    scanFrom true ('-' :: text) = .ok [token] := by
  rw [scanFrom, if_neg (by decide), if_pos ⟨rfl, rfl, signs⟩, literal, whole, scanFrom]
  rfl

/-! ## Exponents -/

def exponentSign : List Char → List Char
  | c :: _ => if c = '+' ∨ c = '-' then [c] else []
  | [] => []

def exponentDigits (text : List Char) : List Char :=
  (text.drop (exponentSign text).length).takeWhile Char.isDigit

theorem exponentPart_cons (mark : Char) (rest : List Char) :
    exponentPart (mark :: rest) =
      if Numeral.isExponentMark mark ∧ exponentDigits rest ≠ [] then
        mark :: (exponentSign rest ++ exponentDigits rest)
      else [] := by
  cases rest <;> rfl

section Digits

variable {sign ds rest : List Char} (signed : sign = [] ∨ sign = ['+'] ∨ sign = ['-'])
  (digits : ∀ c ∈ ds, c.isDigit = true) (some_digit : ds ≠ [])
include signed digits some_digit

theorem exponentSign_append : exponentSign (sign ++ (ds ++ rest)) = sign := by
  rcases signed with rfl | rfl | rfl
  · -- the first digit is no sign
    obtain ⟨c, tail, rfl⟩ := List.exists_cons_of_ne_nil some_digit
    have digit := digits c List.mem_cons_self
    rw [List.nil_append, List.cons_append, exponentSign, if_neg]
    rintro (rfl | rfl) <;> exact absurd digit (by decide)
  · rfl
  · rfl

theorem exponentDigits_append (stop : rest.takeWhile Char.isDigit = []) :
    exponentDigits (sign ++ (ds ++ rest)) = ds := by
  rw [exponentDigits, exponentSign_append signed digits some_digit, List.drop_left]
  exact takeWhile_append_of_stop digits stop

/-- A mark with digits behind it, or with a sign and digits, is an exponent that ends with the last
of these digits. -/
theorem exponentPart_append_of_digits {mark : Char} (is_mark : Numeral.isExponentMark mark = true)
    (stop : rest.takeWhile Char.isDigit = []) :
    exponentPart (mark :: (sign ++ (ds ++ rest))) = mark :: (sign ++ ds) := by
  rw [exponentPart_cons, exponentSign_append signed digits some_digit,
    exponentDigits_append signed digits some_digit stop, if_pos ⟨is_mark, some_digit⟩]

end Digits

/-- So it is an exponent as a whole where nothing comes behind the digits. -/
theorem exponentPart_of_digits {mark : Char} (is_mark : Numeral.isExponentMark mark = true)
    {sign ds : List Char} (signed : sign = [] ∨ sign = ['+'] ∨ sign = ['-'])
    (digits : ∀ c ∈ ds, c.isDigit = true) (some_digit : ds ≠ []) :
    exponentPart (mark :: (sign ++ ds)) = mark :: (sign ++ ds) := by
  have whole := exponentPart_append_of_digits signed digits some_digit is_mark List.takeWhile_nil
  rwa [List.append_nil] at whole

theorem exponentSign_isPrefix (text : List Char) : exponentSign text <+: text := by
  cases text with
  | nil => exact List.nil_prefix
  | cons c rest =>
    simp only [exponentSign]
    split
    · exact ⟨rest, rfl⟩
    · exact List.nil_prefix

theorem exponentPart_isPrefix (text : List Char) : exponentPart text <+: text := by
  cases text with
  | nil => exact List.nil_prefix
  | cons mark rest =>
    rw [exponentPart_cons]
    split
    · refine (List.prefix_cons_inj mark).mpr ?_
      have split := List.prefix_iff_eq_append.mp (exponentSign_isPrefix rest)
      have inside : exponentSign rest ++ exponentDigits rest <+:
          exponentSign rest ++ rest.drop (exponentSign rest).length :=
        (List.prefix_append_right_inj _).mpr (List.takeWhile_prefix _)
      rwa [split] at inside
    · exact List.nil_prefix

theorem afterLiteral_isSuffix (text : List Char) : afterLiteral text <:+ text :=
  (List.drop_suffix _ _).trans (List.dropWhile_suffix _)

theorem takeWhile_isDigit_eq_nil {text : List Char} (stop : text.takeWhile isRunChar = []) :
    text.takeWhile Char.isDigit = [] := by
  cases text with
  | nil => rfl
  | cons c rest =>
    have run : isRunChar c = false := by simpa [List.takeWhile_cons] using stop
    have digit : c.isDigit = false := (Bool.or_eq_false_iff.mp run).1
    simp [digit]

/-! ## Cuts -/

/-- No literal of the front goes on behind it: the rest starts neither with a digit or a point nor
with an exponent, nor with what could follow an exponent mark at the end of the front. -/
structure Cut (front rest : List Char) : Prop where
  run : rest.takeWhile isRunChar = []
  exponent : exponentPart rest = []
  behind_mark : exponentDigits rest ≠ [] →
    ∀ mark ∈ front.getLast?, Numeral.isExponentMark mark = false

variable {front rest : List Char}

/-- A character that is part of no literal makes a cut, unless it is the sign of an exponent. -/
theorem cut_cons {c : Char} (run : isRunChar c = false) (mark : Numeral.isExponentMark c = false)
    (sign : c = '+' ∨ c = '-' → ∀ mark ∈ front.getLast?, Numeral.isExponentMark mark = false) :
    Cut front (c :: rest) := by
  have digit : c.isDigit = false := (Bool.or_eq_false_iff.mp run).1
  refine ⟨by simp [run], by simp [exponentPart_cons, mark], fun digits => sign ?_⟩
  refine Decidable.byContradiction fun no_sign => digits ?_
  simp [exponentDigits, exponentSign, no_sign, digit]

theorem cut_of_single {c : Char} {token : Token} (single : Token.ofChar? c = some token)
    (sign : c = '+' ∨ c = '-' → ∀ mark ∈ front.getLast?, Numeral.isExponentMark mark = false) :
    Cut front (c :: rest) :=
  cut_cons (not_isRunChar_of_ofChar? single).1 (not_isRunChar_of_ofChar? single).2 sign

namespace Cut

variable {piece : List Char}

theorem of_isSuffix (cut : Cut front rest) (suffix : piece <:+ front) : Cut piece rest := by
  refine ⟨cut.run, cut.exponent, fun digits mark last => cut.behind_mark digits mark ?_⟩
  exact mem_getLast?_of_isSuffix suffix last

theorem takeWhile_isDigit (cut : Cut front rest) : rest.takeWhile Char.isDigit = [] :=
  takeWhile_isDigit_eq_nil cut.run

theorem exponentPart_append (cut : Cut front rest) :
    exponentPart (front ++ rest) = exponentPart front := by
  match front with
  | [] => exact cut.exponent
  | [mark] =>
    -- the rest may start with a sign or with digits, but only if there is no mark before it
    rw [List.cons_append, List.nil_append, exponentPart_cons, exponentPart_cons, if_neg,
      if_neg (by simp [exponentDigits])]
    rintro ⟨is_mark, digits⟩
    rw [cut.behind_mark digits mark rfl] at is_mark
    cases is_mark
  | mark :: c :: tail =>
    have sign : exponentSign (c :: tail ++ rest) = exponentSign (c :: tail) := rfl
    have digits : exponentDigits (c :: tail ++ rest) = exponentDigits (c :: tail) := by
      rw [exponentDigits, sign, List.drop_append_of_le_length (exponentSign_isPrefix _).length_le,
        takeWhile_append_right _ cut.takeWhile_isDigit, exponentDigits]
    rw [List.cons_append, exponentPart_cons, exponentPart_cons, sign, digits]

theorem exponentPart_dropWhile_append (cut : Cut front rest) :
    exponentPart (front.dropWhile isRunChar ++ rest) = exponentPart (front.dropWhile isRunChar) :=
  (cut.of_isSuffix (List.dropWhile_suffix _)).exponentPart_append

theorem literalAt_append (cut : Cut front rest) (sign : List Char) :
    literalAt sign (front ++ rest) = literalAt sign front := by
  simp only [literalAt, takeWhile_append_right front cut.run, dropWhile_append_right front cut.run,
    cut.exponentPart_dropWhile_append]

theorem afterLiteral_append (cut : Cut front rest) :
    afterLiteral (front ++ rest) = afterLiteral front ++ rest := by
  simp only [afterLiteral, dropWhile_append_right front cut.run, cut.exponentPart_dropWhile_append]
  exact List.drop_append_of_le_length (exponentPart_isPrefix _).length_le

theorem signsLiteral_append (cut : Cut front rest) :
    signsLiteral (front ++ rest) = signsLiteral front := by
  rw [signsLiteral, takeWhile_append_right front cut.run, signsLiteral]

end Cut

/-! ## Texts -/

theorem scan_nil : scan [] = .ok [] := by
  rw [scan, scanFrom]

theorem ne_nil_of_scan {text : List Char} {tokens : List Token} (scanned : scan text = .ok tokens)
    (some_token : tokens ≠ []) : text ≠ [] := by
  rintro rfl
  rw [scan_nil] at scanned
  exact some_token (Except.ok.inj scanned).symm

/-- Whether an operand may come behind the tokens. -/
def expectsAfter (operandExpected : Bool) : List Token → Bool
  | [] => operandExpected
  | token :: tokens => expectsAfter token.expectsOperand tokens

/-- A scan of the front, followed by one of the rest that knows what may come next. -/
def scanBehind (operandExpected : Bool) (front : Except Fault (List Token)) (rest : List Char) :
    Except Fault (List Token) :=
  front.bind fun tokens => (scanFrom (expectsAfter operandExpected tokens) rest).map (tokens ++ ·)

theorem scanBehind_map_cons (operandExpected : Bool) (token : Token)
    (front : Except Fault (List Token)) (rest : List Char) :
    scanBehind operandExpected (front.map (token :: ·)) rest =
      (scanBehind token.expectsOperand front rest).map (token :: ·) := by
  cases front with
  | error fault => rfl
  | ok tokens =>
    simp only [scanBehind, Except.map, Except.bind, expectsAfter]
    cases scanFrom (expectsAfter token.expectsOperand tokens) rest <;> rfl

theorem expectsOperand_of_literalAt {sign text : List Char} {token : Token}
    (literal : literalAt sign text = .ok token) : token.expectsOperand = false := by
  simp only [literalAt] at literal
  split at literal <;> cases literal
  rfl

theorem scanBehind_bind_literalAt (operandExpected : Bool) (sign text : List Char)
    (front : Except Fault (List Token)) (rest : List Char) :
    scanBehind operandExpected ((literalAt sign text).bind fun token => front.map (token :: ·))
        rest =
      (literalAt sign text).bind fun token =>
        (scanBehind false front rest).map (token :: ·) := by
  cases literal : literalAt sign text with
  | error fault => rfl
  | ok token =>
    have expects := expectsOperand_of_literalAt literal
    rw [← expects]
    exact scanBehind_map_cons operandExpected token front rest

/-- Behind a cut the rest of a text is scanned as if it stood alone, with an operand expected or not
as the tokens before it leave it. -/
theorem scanFrom_append (operandExpected : Bool) (cut : Cut front rest) :
    scanFrom operandExpected (front ++ rest) =
      scanBehind operandExpected (scanFrom operandExpected front) rest := by
  -- the cases of the scanner: the end, a literal, a signed literal, a token, a skipped character
  induction operandExpected, front using scanFrom.induct with
  | case1 operandExpected =>
    rw [List.nil_append, scanFrom.eq_1, scanBehind, Except.bind, expectsAfter]
    cases scanFrom operandExpected rest <;> rfl
  | case2 operandExpected c front run ih =>
    have literal := cut.literalAt_append []
    have inner := cut.of_isSuffix (List.suffix_cons c front)
    have behind := ih (inner.of_isSuffix (afterLiteral_isSuffix front))
    rw [List.cons_append] at literal ⊢
    rw [scanFrom, if_pos run, literal, inner.afterLiteral_append, behind, scanFrom, if_pos run,
      scanBehind_bind_literalAt]
  | case3 operandExpected c front run signed ih =>
    have inner := cut.of_isSuffix (List.suffix_cons c front)
    have behind := ih (inner.of_isSuffix (afterLiteral_isSuffix front))
    rw [List.cons_append, scanFrom, if_neg run, inner.signsLiteral_append, if_pos signed,
      inner.literalAt_append, inner.afterLiteral_append, behind, scanFrom, if_neg run,
      if_pos signed, scanBehind_bind_literalAt]
  | case4 operandExpected c front run signed token single ih =>
    have inner := cut.of_isSuffix (List.suffix_cons c front)
    rw [List.cons_append, scanFrom, if_neg run, inner.signsLiteral_append, if_neg signed,
      scanFrom, if_neg run, if_neg signed]
    simp only [single, ih inner, scanBehind_map_cons]
  | case5 operandExpected c front run signed single ih =>
    have inner := cut.of_isSuffix (List.suffix_cons c front)
    rw [List.cons_append, scanFrom, if_neg run, inner.signsLiteral_append, if_neg signed,
      scanFrom, if_neg run, if_neg signed]
    simp only [single, ih inner]

/-! ## Texts apart from literals -/

/-- No character of the text could go on with a literal that ends before it. -/
def Apart (text : List Char) : Prop :=
  ∀ c ∈ text, isRunChar c = false ∧ Numeral.isExponentMark c = false

/-- The tokens of a text in which every character stands for itself. -/
def singles (text : List Char) : List Token := text.filterMap Token.ofChar?

namespace Apart

variable {tail : List Char}

theorem of_cons {c : Char} (apart : Apart (c :: tail)) : Apart tail :=
  fun d member => apart d (List.mem_cons_of_mem c member)

theorem takeWhile_isRunChar (apart : Apart tail) : tail.takeWhile isRunChar = [] :=
  takeWhile_eq_nil fun c first => (apart c (List.mem_of_mem_head? first)).1

theorem exponentDigits_eq_nil (apart : Apart tail) : exponentDigits tail = [] := by
  refine takeWhile_eq_nil fun c first => ?_
  have member := List.mem_of_mem_drop (List.mem_of_mem_head? first)
  exact (Bool.or_eq_false_iff.mp (apart c member).1).1

theorem exponentPart_eq_nil (apart : Apart tail) : exponentPart tail = [] := by
  cases tail with
  | nil => rfl
  | cons c rest => simp [exponentPart_cons, (apart c List.mem_cons_self).2]

theorem cut (apart : Apart tail) (front : List Char) : Cut front tail :=
  ⟨apart.takeWhile_isRunChar, apart.exponentPart_eq_nil,
    fun digits => absurd apart.exponentDigits_eq_nil digits⟩

theorem signsLiteral_eq_false (apart : Apart tail) : signsLiteral tail = false := by
  rw [signsLiteral, apart.takeWhile_isRunChar]
  rfl

end Apart

variable {tail : List Char}

/-- A text apart from every literal is scanned character by character, wherever it stands. -/
theorem scanFrom_apart (operandExpected : Bool) (apart : Apart tail) :
    scanFrom operandExpected tail = .ok (singles tail) := by
  induction tail generalizing operandExpected with
  | nil => rw [scanFrom, singles, List.filterMap_nil]
  | cons c tail ih =>
    -- neither a literal starts here nor a signed one
    have run := (apart c List.mem_cons_self).1
    rw [scanFrom, apart.of_cons.signsLiteral_eq_false, singles, List.filterMap_cons]
    cases single : Token.ofChar? c <;> simp [run, ih _ apart.of_cons, Except.map, singles]

/-- Such a text adds its own tokens to those of the text before it. -/
theorem scanFrom_append_apart (operandExpected : Bool) (text : List Char) (apart : Apart tail) :
    scanFrom operandExpected (text ++ tail) =
      (scanFrom operandExpected text).map (· ++ singles tail) := by
  rw [scanFrom_append operandExpected (apart.cut text), scanBehind]
  cases scanFrom operandExpected text with
  | error fault => rfl
  | ok tokens =>
    simp only [Except.bind, scanFrom_apart _ apart]
    rfl

end DeskCalculator
