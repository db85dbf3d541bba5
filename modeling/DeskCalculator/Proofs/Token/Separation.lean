import DeskCalculator.Proofs.Token.Scan

/-!
# Scanning on both sides of an operator

An operator other than the minus, or an opening parenthesis, keeps what stands before it and what
stands behind it apart: it ends every literal before it, and behind it an operand is expected, as at
the start of a text. So both sides are scanned as if each stood alone. The plus does so only where
it cannot be the sign of an exponent.
-/
namespace DeskCalculator

/-- The characters that keep what is on both sides of them apart: the operators but the minus, and
the opening parenthesis. -/
def separators : List Char := "+*/^√(".toList

/-- Each of them is a token behind which an operand is expected. -/
theorem exists_token_of_mem_separators {c : Char} (separates : c ∈ separators) :
    ∃ token, Token.ofChar? c = some token ∧ token.expectsOperand = true ∧ c ≠ '-' := by
  have each : (separators.all fun d =>
      (Token.ofChar? d).any Token.expectsOperand && d != '-') = true := by decide
  obtain ⟨expects, no_minus⟩ := Bool.and_eq_true_iff.mp (List.all_eq_true.mp each c separates)
  cases single : Token.ofChar? c with
  | none =>
    rw [single] at expects
    cases expects
  | some token =>
    rw [single] at expects
    exact ⟨token, rfl, expects, bne_iff_ne.mp no_minus⟩

variable {c : Char} {front : List Char}

/-- A token written with a single character other than the minus stands between the tokens before it
and those behind it, unless it is the sign of an exponent. -/
theorem scanFrom_append_single {token : Token} (single : Token.ofChar? c = some token)
    (no_minus : c ≠ '-')
    (sign : c = '+' → ∀ mark ∈ front.getLast?, Numeral.isExponentMark mark = false)
    (operandExpected : Bool) (back : List Char) :
    scanFrom operandExpected (front ++ c :: back) =
      (scanFrom operandExpected front).bind fun before =>
        (scanFrom token.expectsOperand back).map fun behind => before ++ token :: behind := by
  have cut : Cut front (c :: back) :=
    cut_of_single single fun either => sign (either.resolve_right no_minus)
  -- only a minus could belong to a literal behind it, so the character is a token of its own
  have first (expected : Bool) : scanFrom expected (c :: back) =
      (scanFrom token.expectsOperand back).map (token :: ·) :=
    scanFrom_single single fun minus => absurd minus no_minus
  rw [scanFrom_append operandExpected cut, scanBehind]
  simp only [first]
  cases scanFrom token.expectsOperand back <;> rfl

/-- Around a separator that is no sign of an exponent the two sides of a text are scanned apart: the
first of them that cannot be scanned decides the fault, and where both can be, the token of the
separator stands between their tokens. -/
theorem scan_append_separator (separates : c ∈ separators)
    (sign : c = '+' → ∀ mark ∈ front.getLast?, Numeral.isExponentMark mark = false)
    (back : List Char) :
    ∃ token, Token.ofChar? c = some token ∧
      scan (front ++ c :: back) =
        match scan front, scan back with
        | .error fault, _ => .error fault
        | .ok _, .error fault => .error fault
        | .ok before, .ok behind => .ok (before ++ token :: behind) := by
  obtain ⟨token, single, expects, no_minus⟩ := exists_token_of_mem_separators separates
  refine ⟨token, single, ?_⟩
  have split := scanFrom_append_single single no_minus sign true back
  rw [expects] at split
  rw [scan, split, scan, scan]
  cases scanFrom true front <;> cases scanFrom true back <;> rfl

/-- A plus behind a number that starts at a stray mark, and before a number with a sign. -/
theorem scan_append_separator_plus :
    let front := "2E-1-.5e3e7".toList
    let back := "-.5e+1".toList
    '+' ∈ separators ∧ (∀ mark ∈ front.getLast?, Numeral.isExponentMark mark = false) ∧
      scan (front ++ '+' :: back) = .ok [.literal "2E-1".toList, .operator (.binary .sub),
        .literal ".5e3".toList, .literal "7".toList, .operator (.binary .add),
        .literal "-.5e+1".toList] := by
  intro front back
  have separates : '+' ∈ separators := by decide
  have sign : ∀ mark ∈ front.getLast?, Numeral.isExponentMark mark = false := by
    rintro mark ⟨rfl⟩
    rfl
  obtain ⟨token, single, split⟩ := scan_append_separator separates (fun _ => sign) back
  have before : scan front = .ok [.literal "2E-1".toList, .operator (.binary .sub),
      .literal ".5e3".toList, .literal "7".toList] := by decide +kernel
  have behind : scan back = .ok [.literal "-.5e+1".toList] := by decide +kernel
  cases single
  exact ⟨separates, sign, by rw [split, before, behind]; rfl⟩

/-- Behind an exponent mark the plus is the sign of the exponent. -/
example : scan "2e+3".toList = .ok [.literal "2e+3".toList] := by decide +kernel

end DeskCalculator
