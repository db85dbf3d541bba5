import DeskCalculator.Fault
import DeskCalculator.Number.Numeral
import DeskCalculator.Token

/-!
# Reading tokens

An expression is read once, from left to right. A literal is a run of digits and points with at
most one point, then an exponent if a whole one follows. A minus that stands where an operand is
expected, right before a run that holds a digit, belongs to the literal. A character that belongs
to no token is skipped and changes nothing.
-/
namespace DeskCalculator

def isRunChar (c : Char) : Bool := c.isDigit || c == '.'

/-- The exponent at the start of a text: a mark, an optional sign and at least one digit; empty if
there is no whole one. -/
def exponentPart : List Char → List Char
  | [] => []
  | mark :: rest =>
    let sign := match rest with
      | c :: _ => if c = '+' ∨ c = '-' then [c] else []
      | [] => []
    let ds := (rest.drop sign.length).takeWhile Char.isDigit
    if Numeral.isExponentMark mark ∧ ds ≠ [] then mark :: (sign ++ ds) else []

/-- A run with more than one point, cut off behind the second. -/
def throughSecondPoint (run : List Char) : List Char :=
  let whole := run.takeWhile (· != '.')
  let fraction := ((run.dropWhile (· != '.')).drop 1).takeWhile (· != '.')
  whole ++ '.' :: fraction ++ ['.']

/-- The literal token at the start of a text, behind a sign that was read before. -/
def literalAt (sign text : List Char) : Except Fault Token :=
  let run := text.takeWhile isRunChar
  if run.count '.' ≤ 1 then
    .ok (.literal (sign ++ run ++ exponentPart (text.dropWhile isRunChar)))
  else .error (.malformedNumber (throughSecondPoint run))

def afterLiteral (text : List Char) : List Char :=
  let rest := text.dropWhile isRunChar
  rest.drop (exponentPart rest).length

def signsLiteral (text : List Char) : Bool := (text.takeWhile isRunChar).any Char.isDigit

theorem length_afterLiteral_le (text : List Char) :
    (afterLiteral text).length ≤ text.length :=
  Nat.le_trans (List.drop_sublist _ _).length_le (List.dropWhile_sublist _).length_le

/-- The tokens of a text, where `operandExpected` tells whether an operand may come next. -/
def scanFrom (operandExpected : Bool) : List Char → Except Fault (List Token)
  | [] => .ok []
  | c :: rest =>
    if isRunChar c then
      (literalAt [] (c :: rest)).bind fun token =>
        (scanFrom false (afterLiteral rest)).map (token :: ·)
    else if c = '-' ∧ operandExpected = true ∧ signsLiteral rest = true then
      (literalAt ['-'] rest).bind fun token =>
        (scanFrom false (afterLiteral rest)).map (token :: ·)
    else match Token.ofChar? c with
      | some token => (scanFrom token.expectsOperand rest).map (token :: ·)
      | none => scanFrom operandExpected rest
termination_by text => text.length
decreasing_by
  all_goals
    have := length_afterLiteral_le rest
    simp only [List.length_cons]
    omega

def scan (text : List Char) : Except Fault (List Token) := scanFrom true text

end DeskCalculator
