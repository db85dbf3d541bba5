import DeskCalculator.Proofs.Token.Scan
import DeskCalculator.Text.Blank

/-!
# The text of a token

A token is written with the characters that it was read from. So a text is made up of the tokens
read from it and of the characters that were skipped, and the text of each of these tokens, where it
stands alone in the same place, is read as this token again.
-/
namespace DeskCalculator

/-! ## Blanks -/

theorem not_isBlank_of_isDigit {c : Char} (digit : c.isDigit = true) : isBlank c = false := by
  have bounds : 48 ≤ c.toNat ∧ c.toNat ≤ 57 := Char.isDigit_iff_toNat.mp digit
  simp [isBlank, blankRanges]
  omega

theorem not_isBlank_of_isRunChar {c : Char} (run : isRunChar c = true) : isBlank c = false := by
  rcases Bool.or_eq_true_iff.mp run with digit | point
  · exact not_isBlank_of_isDigit digit
  · rw [eq_of_beq point]
    decide

theorem not_isBlank_of_isExponentMark {c : Char} (mark : Numeral.isExponentMark c = true) :
    isBlank c = false := by
  rcases (isExponentMark_iff c).mp mark with rfl | rfl <;> decide

theorem not_isRunChar_of_isBlank {c : Char} (blank : isBlank c = true) :
    isRunChar c = false ∧ Numeral.isExponentMark c = false := by
  refine ⟨Bool.eq_false_iff.mpr fun run => ?_, Bool.eq_false_iff.mpr fun mark => ?_⟩
  · rw [not_isBlank_of_isRunChar run] at blank
    cases blank
  · rw [not_isBlank_of_isExponentMark mark] at blank
    cases blank

/-! ## Token characters -/

/-- Digits, points, operators and parentheses: all that tokens are written with, apart from the
marks of exponents. -/
def isTokenChar (c : Char) : Bool := isRunChar c || Token.symbols.contains c

theorem isTokenChar_of_isRunChar {c : Char} (run : isRunChar c = true) : isTokenChar c = true := by
  rw [isTokenChar, run, Bool.true_or]

theorem isTokenChar_of_ofChar? {c : Char} {token : Token} (single : Token.ofChar? c = some token) :
    isTokenChar c = true := by
  rw [isTokenChar, List.contains_iff_mem.mpr (Token.mem_symbols_of_ofChar? single), Bool.or_true]

theorem not_isTokenChar {c : Char} (run : isRunChar c = false) (none : Token.ofChar? c = none) :
    isTokenChar c = false := by
  have each : (Token.symbols.all fun d => (Token.ofChar? d).isSome) = true := by decide
  refine Bool.or_eq_false_iff.mpr ⟨run, Bool.eq_false_iff.mpr fun symbol => ?_⟩
  have some_token := List.all_eq_true.mp each c (List.contains_iff_mem.mp symbol)
  rw [none] at some_token
  cases some_token

theorem not_isTokenChar_of_isExponentMark {c : Char} (mark : Numeral.isExponentMark c = true) :
    isTokenChar c = false := by
  rcases (isExponentMark_iff c).mp mark with rfl | rfl <;> decide

theorem not_isExponentMark_of_isTokenChar {c : Char} (written : isTokenChar c = true) :
    Numeral.isExponentMark c = false := by
  refine Bool.eq_false_iff.mpr fun mark => ?_
  rw [not_isTokenChar_of_isExponentMark mark] at written
  cases written

theorem not_isBlank_of_isTokenChar {c : Char} (written : isTokenChar c = true) :
    isBlank c = false := by
  have each : Token.symbols.all (!isBlank ·) = true := by decide
  rcases Bool.or_eq_true_iff.mp written with run | symbol
  · exact not_isBlank_of_isRunChar run
  · simpa using List.all_eq_true.mp each c (List.contains_iff_mem.mp symbol)

theorem not_isBlank_of_ofChar? {c : Char} {token : Token} (single : Token.ofChar? c = some token) :
    isBlank c = false :=
  not_isBlank_of_isTokenChar (isTokenChar_of_ofChar? single)

theorem ofChar?_eq_none_of_isBlank {c : Char} (blank : isBlank c = true) :
    Token.ofChar? c = none := by
  cases single : Token.ofChar? c with
  | none => rfl
  | some token =>
    rw [not_isBlank_of_ofChar? single] at blank
    cases blank

/-! ## Exponents -/

/-- An exponent as a whole: a mark, perhaps a sign, and at least one digit. -/
inductive IsExponent : List Char → Prop where
  | intro {mark : Char} {sign digits : List Char} (is_mark : Numeral.isExponentMark mark = true)
      (signed : sign = [] ∨ sign = ['+'] ∨ sign = ['-']) (all : ∀ c ∈ digits, c.isDigit = true)
      (some_digit : digits ≠ []) : IsExponent (mark :: (sign ++ digits))

theorem exponentSign_eq (text : List Char) :
    exponentSign text = [] ∨ exponentSign text = ['+'] ∨ exponentSign text = ['-'] := by
  cases text with
  | nil => exact .inl rfl
  | cons c rest =>
    rw [exponentSign]
    split
    · next sign => exact .inr (by simpa using sign)
    · exact .inl rfl

/-- Either no exponent stands at the start of a text, or what is read there is a whole one. -/
theorem exponentPart_eq_nil_or (text : List Char) :
    exponentPart text = [] ∨ IsExponent (exponentPart text) := by
  cases text with
  | nil => exact .inl rfl
  | cons mark rest =>
    rw [exponentPart_cons]
    split
    · next whole =>
      exact .inr (.intro whole.1 (exponentSign_eq rest) (fun _ => List.mem_takeWhile_imp) whole.2)
    · exact .inl rfl

namespace IsExponent

variable {text : List Char} (exponent : IsExponent text)
include exponent

theorem exponentPart_eq : exponentPart text = text := by
  obtain ⟨is_mark, signed, all, some_digit⟩ := exponent
  exact exponentPart_of_digits is_mark signed all some_digit

theorem takeWhile_isRunChar : text.takeWhile isRunChar = [] := by
  obtain ⟨is_mark, _, _, _⟩ := exponent
  refine List.takeWhile_cons_of_neg fun run => ?_
  rw [not_isExponentMark_of_isRunChar run] at is_mark
  cases is_mark

theorem isTokenChar_of_mem {c : Char} (member : c ∈ text) :
    isTokenChar c = true ∨ Numeral.isExponentMark c = true := by
  obtain ⟨is_mark, signed, all, _⟩ := exponent
  rcases List.mem_cons.mp member with rfl | member
  · exact .inr is_mark
  · left
    rcases List.mem_append.mp member with sign | digit
    · rcases signed with rfl | rfl | rfl
      · cases sign
      · rw [List.mem_singleton.mp sign]
        rfl
      · rw [List.mem_singleton.mp sign]
        rfl
    · exact isTokenChar_of_isRunChar (Bool.or_eq_true_iff.mpr (.inl (all c digit)))

end IsExponent

/-! ## The text of a literal -/

/-- The characters of the literal at the start of a text, without the sign before it. -/
def literalText (text : List Char) : List Char :=
  text.takeWhile isRunChar ++ exponentPart (text.dropWhile isRunChar)

/-- An exponent that was found is found again where it stands alone. -/
theorem exponentPart_exponentPart (text : List Char) :
    exponentPart (exponentPart text) = exponentPart text := by
  rcases exponentPart_eq_nil_or text with none | whole
  · rw [none, exponentPart]
  · exact whole.exponentPart_eq

theorem exponentPart_stop (text : List Char) : (exponentPart text).takeWhile isRunChar = [] := by
  rcases exponentPart_eq_nil_or text with none | whole
  · rw [none, List.takeWhile_nil]
  · exact whole.takeWhile_isRunChar

theorem literalText_append_afterLiteral (text : List Char) :
    literalText text ++ afterLiteral text = text := by
  have behind : exponentPart (text.dropWhile isRunChar) ++ afterLiteral text =
      text.dropWhile isRunChar :=
    List.prefix_iff_eq_append.mp (exponentPart_isPrefix _)
  rw [literalText, List.append_assoc, behind, List.takeWhile_append_dropWhile]

theorem takeWhile_literalText (text : List Char) :
    (literalText text).takeWhile isRunChar = text.takeWhile isRunChar :=
  takeWhile_append_of_stop (fun _ member => List.mem_takeWhile_imp member) (exponentPart_stop _)

theorem dropWhile_literalText (text : List Char) :
    (literalText text).dropWhile isRunChar = exponentPart (text.dropWhile isRunChar) :=
  dropWhile_append_of_stop (fun _ member => List.mem_takeWhile_imp member) (exponentPart_stop _)

theorem literalAt_literalText (sign text : List Char) :
    literalAt sign (literalText text) = literalAt sign text := by
  simp only [literalAt, takeWhile_literalText, dropWhile_literalText, exponentPart_exponentPart]

theorem afterLiteral_literalText (text : List Char) : afterLiteral (literalText text) = [] := by
  simp only [afterLiteral, dropWhile_literalText, exponentPart_exponentPart, List.drop_length]

theorem signsLiteral_literalText (text : List Char) :
    signsLiteral (literalText text) = signsLiteral text := by
  rw [signsLiteral, takeWhile_literalText, signsLiteral]

theorem text_of_literalAt {sign text : List Char} {token : Token}
    (literal : literalAt sign text = .ok token) : token.text = sign ++ literalText text := by
  simp only [literalAt] at literal
  split at literal
  · cases literal
    rw [Token.text, literalText, List.append_assoc]
  · cases literal

theorem literalText_cons {c : Char} (run : isRunChar c = true) (rest : List Char) :
    literalText (c :: rest) = c :: literalText rest := by
  simp only [literalText, List.takeWhile_cons, List.dropWhile_cons, run, ↓reduceIte,
    List.cons_append]

theorem isTokenChar_of_mem_literalText {text : List Char} {c : Char}
    (member : c ∈ literalText text) : isTokenChar c = true ∨ Numeral.isExponentMark c = true := by
  rcases List.mem_append.mp member with run | exponent
  · exact .inl (isTokenChar_of_isRunChar (List.mem_takeWhile_imp run))
  · rcases exponentPart_eq_nil_or (text.dropWhile isRunChar) with none | whole
    · rw [none] at exponent
      cases exponent
    · exact whole.isTokenChar_of_mem exponent

/-! ## Skipped characters -/

/-- The characters that are skipped when a text is read, because they belong to no token. -/
def skippedFrom (operandExpected : Bool) : List Char → List Char
  | [] => []
  | c :: rest =>
    if isRunChar c ∨ c = '-' ∧ operandExpected = true ∧ signsLiteral rest = true then
      skippedFrom false (afterLiteral rest)
    else match Token.ofChar? c with
      | some token => skippedFrom token.expectsOperand rest
      | none => c :: skippedFrom operandExpected rest
termination_by text => text.length
decreasing_by
  all_goals
    have := length_afterLiteral_le rest
    simp only [List.length_cons]
    omega

def skipped (text : List Char) : List Char := skippedFrom true text

/-- How a text is read: where an operand is expected or not, it gives these tokens and leaves these
characters out. -/
inductive Scans : Bool → List Char → List Token → List Char → Prop where
  | nil (operandExpected : Bool) : Scans operandExpected [] [] []
  | literal {operandExpected : Bool} {c : Char} {rest left : List Char} {token : Token}
      {tokens : List Token} (run : isRunChar c = true)
      (literal : literalAt [] (c :: rest) = .ok token)
      (behind : Scans false (afterLiteral rest) tokens left) :
      Scans operandExpected (c :: rest) (token :: tokens) left
  | signed {rest left : List Char} {token : Token} {tokens : List Token}
      (signs : signsLiteral rest = true) (literal : literalAt ['-'] rest = .ok token)
      (behind : Scans false (afterLiteral rest) tokens left) :
      Scans true ('-' :: rest) (token :: tokens) left
  | single {operandExpected : Bool} {c : Char} {rest left : List Char} {token : Token}
      {tokens : List Token} (single : Token.ofChar? c = some token)
      (unfused : c = '-' → operandExpected = true → signsLiteral rest = false)
      (behind : Scans token.expectsOperand rest tokens left) :
      Scans operandExpected (c :: rest) (token :: tokens) left
  | skipped {operandExpected : Bool} {c : Char} {rest left : List Char} {tokens : List Token}
      (run : isRunChar c = false) (none : Token.ofChar? c = none)
      (behind : Scans operandExpected rest tokens left) :
      Scans operandExpected (c :: rest) tokens (c :: left)

theorem exists_of_map_cons_eq_ok {rest : Except Fault (List Token)} {token : Token}
    {tokens : List Token} (read : rest.map (token :: ·) = .ok tokens) :
    ∃ behind, rest = .ok behind ∧ tokens = token :: behind := by
  cases rest with
  | error fault => cases read
  | ok behind =>
    cases read
    exact ⟨behind, rfl, rfl⟩

theorem exists_of_bind_map_eq_ok {first : Except Fault Token} {rest : Except Fault (List Token)}
    {tokens : List Token}
    (read : (first.bind fun token => rest.map (token :: ·)) = .ok tokens) :
    ∃ token behind, first = .ok token ∧ rest = .ok behind ∧ tokens = token :: behind := by
  cases first with
  | error fault => cases read
  | ok token =>
    obtain ⟨behind, ok, shape⟩ := exists_of_map_cons_eq_ok read
    exact ⟨token, behind, rfl, ok, shape⟩

theorem scans_of_scanFrom {operandExpected : Bool} {text : List Char} {tokens : List Token}
    (scanned : scanFrom operandExpected text = .ok tokens) :
    Scans operandExpected text tokens (skippedFrom operandExpected text) := by
  -- the cases of the scanner: the end, a literal, a signed literal, a token, a skipped character
  induction operandExpected, text using scanFrom.induct generalizing tokens with
  | case1 operandExpected =>
    rw [scanFrom] at scanned
    cases scanned
    rw [skippedFrom]
    exact .nil operandExpected
  | case2 operandExpected c rest run ih =>
    rw [scanFrom, if_pos run] at scanned
    obtain ⟨token, behind, literal, inner, rfl⟩ := exists_of_bind_map_eq_ok scanned
    rw [skippedFrom, if_pos (.inl run)]
    exact .literal run literal (ih inner)
  | case3 operandExpected c rest run signed ih =>
    rw [scanFrom, if_neg run, if_pos signed] at scanned
    obtain ⟨token, behind, literal, inner, rfl⟩ := exists_of_bind_map_eq_ok scanned
    rw [skippedFrom, if_pos (.inr signed)]
    obtain ⟨rfl, rfl, signs⟩ := signed
    exact .signed signs literal (ih inner)
  | case4 operandExpected c rest run signed token single ih =>
    rw [scanFrom, if_neg run, if_neg signed] at scanned
    rw [skippedFrom, if_neg (not_or.mpr ⟨run, signed⟩)]
    simp only [single] at scanned ⊢
    obtain ⟨behind, inner, rfl⟩ := exists_of_map_cons_eq_ok scanned
    refine .single single (fun minus expected => ?_) (ih inner)
    exact Bool.eq_false_iff.mpr fun signs => signed ⟨minus, expected, signs⟩
  | case5 operandExpected c rest run signed none ih =>
    rw [scanFrom, if_neg run, if_neg signed] at scanned
    rw [skippedFrom, if_neg (not_or.mpr ⟨run, signed⟩)]
    simp only [none] at scanned ⊢
    exact .skipped (Bool.eq_false_iff.mpr run) none (ih scanned)

/-! ## What a text is made of -/

/-- The text consists of the tokens, in order, with the characters `left` before, between and behind
them. -/
inductive ConsistsOf : List Char → List Token → List Char → Prop where
  | nil : ConsistsOf [] [] []
  | token {text left : List Char} {tokens : List Token} (token : Token)
      (behind : ConsistsOf text tokens left) :
      ConsistsOf (token.text ++ text) (token :: tokens) left
  | left {text left : List Char} {tokens : List Token} (c : Char)
      (behind : ConsistsOf text tokens left) : ConsistsOf (c :: text) tokens (c :: left)

namespace ConsistsOf

variable {text left : List Char} {tokens : List Token}

theorem flatMap_text_sublist (consists : ConsistsOf text tokens left) :
    (tokens.flatMap Token.text).Sublist text := by
  induction consists with
  | nil => exact List.Sublist.refl []
  | token token _ ih => exact ih.append_left token.text
  | left c _ ih => exact ih.cons c

/-- No character with a property is missing from the tokens if none with it is left out. -/
theorem filter_flatMap_text (consists : ConsistsOf text tokens left) {p : Char → Bool}
    (out : ∀ c ∈ left, p c = false) : (tokens.flatMap Token.text).filter p = text.filter p := by
  induction consists with
  | nil => rfl
  | token token _ ih => rw [List.flatMap_cons, List.filter_append, List.filter_append, ih out]
  | left c _ ih =>
    rw [ih fun d member => out d (List.mem_cons_of_mem c member),
      List.filter_cons_of_neg (by simp [out c List.mem_cons_self])]

end ConsistsOf

namespace Scans

variable {operandExpected : Bool} {text left : List Char} {tokens : List Token}

theorem consistsOf (scans : Scans operandExpected text tokens left) :
    ConsistsOf text tokens left := by
  induction scans with
  | nil => exact .nil
  | @literal _ c rest _ token _ run literal _ ih =>
    have shape : token.text ++ afterLiteral rest = c :: rest := by
      rw [text_of_literalAt literal, List.nil_append, ← afterLiteral_cons run,
        literalText_append_afterLiteral]
    exact shape ▸ ih.token token
  | @signed rest _ token _ _ literal _ ih =>
    have shape : token.text ++ afterLiteral rest = '-' :: rest := by
      rw [text_of_literalAt literal, List.append_assoc, literalText_append_afterLiteral,
        List.singleton_append]
    exact shape ▸ ih.token token
  | @single _ c rest _ token _ single _ _ ih =>
    have shape : token.text ++ rest = c :: rest := by
      rw [(Token.text_of_ofChar? single).1, List.singleton_append]
    exact shape ▸ ih.token token
  | skipped _ _ _ ih => exact ih.left _

theorem isTokenChar_of_mem (scans : Scans operandExpected text tokens left) {c : Char}
    (member : c ∈ tokens.flatMap Token.text) :
    isTokenChar c = true ∨ Numeral.isExponentMark c = true := by
  induction scans with
  | nil => cases member
  | @literal _ _ _ _ _ _ _ literal _ ih =>
    rw [List.flatMap_cons, text_of_literalAt literal, List.nil_append] at member
    exact (List.mem_append.mp member).elim isTokenChar_of_mem_literalText ih
  | @signed _ _ _ _ _ literal _ ih =>
    rw [List.flatMap_cons, text_of_literalAt literal, List.append_assoc,
      List.singleton_append] at member
    rcases List.mem_cons.mp member with rfl | member
    · exact .inl rfl
    · exact (List.mem_append.mp member).elim isTokenChar_of_mem_literalText ih
  | single single _ _ ih =>
    rw [List.flatMap_cons, (Token.text_of_ofChar? single).1] at member
    rcases List.mem_cons.mp member with rfl | member
    · exact .inl (isTokenChar_of_ofChar? single)
    · exact ih member
  | skipped _ _ _ ih => exact ih member

theorem not_isTokenChar_of_mem_left (scans : Scans operandExpected text tokens left) {c : Char}
    (member : c ∈ left) : isTokenChar c = false := by
  induction scans with
  | nil => cases member
  | literal _ _ _ ih | signed _ _ _ ih | single _ _ _ ih => exact ih member
  | skipped run none _ ih =>
    rcases List.mem_cons.mp member with rfl | member
    · exact not_isTokenChar run none
    · exact ih member

/-- Where nothing but blanks is skipped, the text apart from its blanks is that of the tokens. -/
theorem flatMap_text (scans : Scans operandExpected text tokens left)
    (blank : ∀ c ∈ left, isBlank c = true) :
    tokens.flatMap Token.text = text.filter (!isBlank ·) := by
  -- no token is written with a blank
  have kept : (tokens.flatMap Token.text).filter (!isBlank ·) = tokens.flatMap Token.text := by
    refine List.filter_eq_self.mpr fun c member => ?_
    rcases scans.isTokenChar_of_mem member with written | mark
    · rw [not_isBlank_of_isTokenChar written, Bool.not_false]
    · rw [not_isBlank_of_isExponentMark mark, Bool.not_false]
  rw [← kept]
  exact scans.consistsOf.filter_flatMap_text fun c member => by rw [blank c member, Bool.not_true]

end Scans

/-- The tokens of a text are written with characters of the text, in its order. They have all its
digits, points, operators and parentheses, each of them once, and besides these nothing but marks of
exponents. -/
theorem flatMap_text_of_scan {text : List Char} {tokens : List Token}
    (scanned : scan text = .ok tokens) :
    (tokens.flatMap Token.text).Sublist text ∧
      (tokens.flatMap Token.text).filter (!Numeral.isExponentMark ·) = text.filter isTokenChar := by
  have scans := scans_of_scanFrom scanned
  refine ⟨scans.consistsOf.flatMap_text_sublist, ?_⟩
  -- in the text of a token, what is no mark is a token character
  have unmarked : ∀ c ∈ tokens.flatMap Token.text,
      (!Numeral.isExponentMark c) = isTokenChar c := by
    intro c member
    rcases scans.isTokenChar_of_mem member with written | mark
    · rw [not_isExponentMark_of_isTokenChar written, written, Bool.not_false]
    · rw [mark, not_isTokenChar_of_isExponentMark mark, Bool.not_true]
  calc (tokens.flatMap Token.text).filter (!Numeral.isExponentMark ·)
    _ = (tokens.flatMap Token.text).filter isTokenChar := List.filter_congr unmarked
    _ = text.filter isTokenChar :=
        scans.consistsOf.filter_flatMap_text fun _ => scans.not_isTokenChar_of_mem_left

/-- The mark and the sign of an exponent belong to the literal; a mark behind an exponent, or
without digits behind it, is skipped. -/
theorem flatMap_text_of_scan_marks :
    let text := "xe√(-1.5E+3e7y--.2 e-e)".toList
    let tokens : List Token := [.operator .root, .opening, .literal "-1.5E+3".toList,
      .literal "7".toList, .operator (.binary .sub), .literal "-.2".toList,
      .operator (.binary .sub), .closing]
    scan text = .ok tokens ∧ ("√(-1.5E+37--.2-)".toList).Sublist text ∧
      (tokens.flatMap Token.text).filter (!Numeral.isExponentMark ·) =
        "√(-1.5+37--.2-)".toList ∧
      text.filter isTokenChar = "√(-1.5+37--.2-)".toList := by
  intro text tokens
  have scanned : scan text = .ok tokens := by decide +kernel
  have written : text.filter isTokenChar = "√(-1.5+37--.2-)".toList := by decide +kernel
  obtain ⟨in_order, all⟩ := flatMap_text_of_scan scanned
  exact ⟨scanned, in_order, all.trans written, written⟩

/-- Each token is read again from its own text, where the tokens before it leave off. -/
def Rescans : Bool → List Token → Prop
  | _, [] => True
  | operandExpected, token :: tokens =>
    scanFrom operandExpected token.text = .ok [token] ∧ Rescans token.expectsOperand tokens

theorem Scans.rescans {operandExpected : Bool} {text left : List Char} {tokens : List Token}
    (scans : Scans operandExpected text tokens left) : Rescans operandExpected tokens := by
  induction scans with
  | nil => trivial
  | @literal operandExpected c rest _ _ _ run literal _ ih =>
    refine ⟨?_, expectsOperand_of_literalAt literal ▸ ih⟩
    have again := (literalAt_literalText [] (c :: rest)).trans literal
    have whole := afterLiteral_literalText (c :: rest)
    rw [literalText_cons run] at again whole
    rw [text_of_literalAt literal, List.nil_append, literalText_cons run]
    exact scanFrom_literal run again whole operandExpected
  | @signed rest _ _ _ signs literal _ ih =>
    refine ⟨?_, expectsOperand_of_literalAt literal ▸ ih⟩
    rw [text_of_literalAt literal]
    exact scanFrom_signed ((signsLiteral_literalText rest).trans signs)
      ((literalAt_literalText ['-'] rest).trans literal) (afterLiteral_literalText rest)
  | single single _ _ ih =>
    refine ⟨?_, ih⟩
    rw [(Token.text_of_ofChar? single).1, scanFrom_single single (fun _ _ => rfl), scanFrom]
    rfl
  | skipped _ _ _ ih => exact ih

end DeskCalculator
