import DeskCalculator.Evaluation
import DeskCalculator.Proofs.Depth
import DeskCalculator.Proofs.Parentheses
import DeskCalculator.Proofs.Token.Scan
import Mathlib.Data.List.Basic

/-!
# Expressions in parentheses

An expression in parentheses stands for its value. Scanning does not look across a parenthesis,
reverse Polish order keeps what is inside apart from what is around, and the machine works on top of
what is on the stack already. So an operation on two expressions in parentheses is the operation on
their values, however these expressions are written.
-/
namespace DeskCalculator

/-- A text in parentheses. -/
def enclosed (text : List Char) : List Char := '(' :: (text ++ [')'])

/-! ## Scanning -/

/-- The tokens of a text in parentheses, followed by those of what comes behind. -/
theorem scanFrom_enclosed {text : List Char} {tokens : List Token}
    (scanned : scan text = .ok tokens) (operandExpected : Bool) (rest : List Char) :
    scanFrom operandExpected (enclosed text ++ rest) =
      (scanFrom false rest).map fun behind => .opening :: (tokens ++ .closing :: behind) := by
  have opening : Token.ofChar? '(' = some .opening := rfl
  have closing : Token.ofChar? ')' = some .closing := rfl
  have cut : Cut text (')' :: rest) := cut_of_single closing (by simp)
  have inside : scanFrom true (text ++ ')' :: rest) =
      (scanFrom false rest).map fun behind => tokens ++ .closing :: behind := by
    rw [scan] at scanned
    rw [scanFrom_append true cut, scanned, scanBehind, Except.bind,
      scanFrom_single closing (by simp), Token.expectsOperand]
    cases scanFrom false rest <;> rfl
  rw [enclosed, List.cons_append, List.append_assoc, List.singleton_append,
    scanFrom_single opening (by simp), Token.expectsOperand, inside]
  cases scanFrom false rest <;> rfl

variable {first second : List Char} {left right : List Token}

theorem scan_binary (scanned_left : scan first = .ok left) (scanned_right : scan second = .ok right)
    (op : BinaryOperator) :
    scan (enclosed first ++ op.symbol :: enclosed second) =
      .ok (.opening :: (left ++ .closing :: .operator (.binary op) ::
        .opening :: (right ++ [.closing]))) := by
  -- behind a closing parenthesis a minus is an operator
  have symbol : Token.ofChar? op.symbol = some (.operator (.binary op)) :=
    Token.ofChar?_symbol (.binary op)
  have behind := scanFrom_enclosed scanned_right true []
  rw [List.append_nil, scanFrom] at behind
  rw [scan, scanFrom_enclosed scanned_left, scanFrom_single symbol (by simp), Token.expectsOperand,
    behind]
  rfl

theorem scan_root (scanned : scan first = .ok left) :
    scan ('√' :: enclosed first) =
      .ok (.operator .root :: .opening :: (left ++ [.closing])) := by
  have symbol : Token.ofChar? '√' = some (.operator .root) := Token.ofChar?_symbol .root
  have inside := scanFrom_enclosed scanned true []
  rw [List.append_nil, scanFrom] at inside
  rw [scan, scanFrom_single symbol (by simp), Token.expectsOperand, inside]
  rfl

/-! ## Reverse Polish order -/

theorem polish_binary (balanced_left : Balanced left) (balanced_right : Balanced right)
    (op : BinaryOperator) :
    polish (.opening :: (left ++ .closing :: .operator (.binary op) ::
        .opening :: (right ++ [.closing]))) =
      polish left ++ (polish right ++ [.operator (.binary op)]) := by
  rw [polish, polishFrom_enclosed balanced_left, polishFrom, List.takeWhile_nil, List.dropWhile_nil,
    List.map_nil, List.nil_append, polishFrom_enclosed balanced_right]
  rfl

theorem polish_root (balanced : Balanced left) :
    polish (.operator .root :: .opening :: (left ++ [.closing])) =
      polish left ++ [.operator .root] := by
  rw [polish, polishFrom, List.takeWhile_nil, List.dropWhile_nil, List.map_nil, List.nil_append,
    polishFrom_enclosed balanced]
  rfl

/-! ## The machine -/

namespace Machine

variable {α : Type} [Arithmetic α]

/-- A token that finds its operands does not look at what is below them. -/
theorem Steps.append {stack next : List α} {token : Token} (steps : Steps stack token next)
    (below : List α) : Steps (stack ++ below) token (next ++ below) := by
  cases steps with
  | literal denoted => exact .literal denoted
  | root => exact .root
  | binary => exact .binary

theorem runFrom_append_below {stack final : List α} {tokens : List Token}
    (ran : runFrom stack tokens = .ok final) (below : List α) :
    runFrom (stack ++ below) tokens = .ok (final ++ below) := by
  induction tokens generalizing stack with
  | nil =>
    cases ran
    rfl
  | cons token rest ih =>
    obtain ⟨next, first, behind⟩ := runFrom_cons_eq_ok_iff.mp ran
    exact runFrom_cons_eq_ok_iff.mpr ⟨_, first.append below, ih behind⟩

/-- Tokens that run to a value put it on top of whatever the stack holds. -/
theorem runFrom_of_run {tokens : List Token} {x : α} (ran : run tokens = .ok x) (below : List α) :
    runFrom below tokens = .ok (x :: below) :=
  runFrom_append_below (run_eq_ok_iff.mp ran) below

end Machine

/-! ## Values -/

/-- A text with balanced parentheses that has a value. -/
structure Denotes (text : List Char) (x : Double) : Prop where
  some_text : text ≠ []
  balanced : ∃ tokens, scan text = .ok tokens ∧ Balanced tokens
  value : evaluate text = .ok x

theorem Denotes.exists_run {text : List Char} {x : Double} (denotes : Denotes text x) :
    ∃ tokens, scan text = .ok tokens ∧ Balanced tokens ∧ Machine.run (polish tokens) = .ok x := by
  obtain ⟨tokens, scanned, balanced⟩ := denotes.balanced
  obtain ⟨same, scanned', ran⟩ := (evaluate_eq_ok_iff denotes.some_text).mp denotes.value
  rw [scanned] at scanned'
  cases scanned'
  exact ⟨tokens, scanned, balanced, ran⟩

/-- An operation on texts in parentheses is the operation on their values: a binary one between two
of them, and the root of one. -/
theorem evaluate_enclosed {first : List Char} {x : Double} (left : Denotes first x) :
    evaluate ('√' :: enclosed first) = .ok x.sqrt ∧
      ∀ {second : List Char} {y : Double}, Denotes second y → ∀ op : BinaryOperator,
        evaluate (enclosed first ++ op.symbol :: enclosed second) = .ok (op.apply x y) := by
  obtain ⟨left_tokens, scanned_left, balanced_left, ran_left⟩ := left.exists_run
  constructor
  · refine (evaluate_eq_ok_iff (by simp)).mpr ⟨_, scan_root scanned_left, ?_⟩
    rw [polish_root balanced_left, Machine.run_eq_ok_iff, Machine.runFrom_append_eq_ok_iff]
    exact ⟨[x], Machine.runFrom_of_run ran_left [], rfl⟩
  · intro second y right op
    obtain ⟨right_tokens, scanned_right, balanced_right, ran_right⟩ := right.exists_run
    refine (evaluate_eq_ok_iff (by simp)).mpr ⟨_, scan_binary scanned_left scanned_right op, ?_⟩
    rw [polish_binary balanced_left balanced_right, Machine.run_eq_ok_iff,
      Machine.runFrom_append_eq_ok_iff]
    -- the second expression runs on top of the value of the first
    refine ⟨[x], Machine.runFrom_of_run ran_left [], ?_⟩
    rw [Machine.runFrom_append_eq_ok_iff]
    exact ⟨[y, x], Machine.runFrom_of_run ran_right [x], rfl⟩

/-- The first text adds the numbers before it, and in the second a letter is skipped. -/
theorem evaluate_enclosed_sum_and_root :
    let five : Double := .finite ⟨false, 5 * 1125899906842624, -50, by decide⟩
    let two : Double := .finite ⟨false, leadingUnit, -51, by decide⟩
    Denotes "2 3+".toList five ∧ Denotes "x√4".toList two ∧
      evaluate ('√' :: enclosed "2 3+".toList) = .ok five.sqrt ∧
      evaluate (enclosed "2 3+".toList ++ '-' :: enclosed "x√4".toList) =
        .ok (BinaryOperator.sub.apply five two) := by
  intro five two
  have sum : Denotes "2 3+".toList five := by
    refine ⟨by decide, ⟨[.literal ['2'], .literal ['3'], .operator (.binary .add)], ?_, ?_⟩, ?_⟩ <;>
      decide +kernel
  have root : Denotes "x√4".toList two := by
    refine ⟨by decide, ⟨[.operator .root, .literal ['4']], ?_, ?_⟩, ?_⟩ <;> decide +kernel
  obtain ⟨rooted, combined⟩ := evaluate_enclosed sum
  exact ⟨sum, root, rooted, combined root .sub⟩

end DeskCalculator
