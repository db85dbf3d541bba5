import DeskCalculator.Evaluation
import DeskCalculator.Proofs.Failure
import Mathlib.Data.List.Basic

/-!
# What reverse Polish order moves

Reverse Polish order drops the parentheses and moves operators behind their operands; it adds
nothing, loses nothing else and leaves the literals in the order in which they are written. So the
machine never meets a parenthesis in an expression that has been put in order, and an expression
with a value has one literal more than it has binary operators.
-/
namespace DeskCalculator

/-- What is waiting holds no literals, wherever it comes out. -/
theorem filter_isLiteral_map_operator (ops : List Operator) :
    (ops.map Token.operator).filter Token.isLiteral = [] := by
  induction ops with
  | nil => rfl
  | cons op ops ih => exact ih

theorem filter_isLiteral_polishFrom (waiting : List Operator) (outer : List (List Operator))
    (tokens : List Token) :
    (polishFrom waiting outer tokens).filter Token.isLiteral = tokens.filter Token.isLiteral := by
  induction tokens generalizing waiting outer with
  | nil => exact filter_isLiteral_map_operator _
  | cons token rest ih =>
    cases token with
    | literal text => exact congrArg (Token.literal text :: ·) (ih waiting outer)
    | opening => exact ih [] (waiting :: outer)
    | closing | operator op =>
      rw [polishFrom, List.filter_append, filter_isLiteral_map_operator, ih]
      rfl

theorem not_isParenthesis_of_mem_polish {tokens : List Token} {token : Token}
    (member : token ∈ polish tokens) : token.isParenthesis = false := by
  have kept := (polish_perm tokens).mem_iff.mp member
  simpa using (List.mem_filter.mp kept).2

/-- The machine meets no parenthesis in reverse Polish order. -/
theorem run_polish_ne_parenthesis {α : Type} [Arithmetic α] (tokens : List Token) :
    (Machine.run (polish tokens) : Except Fault α) ≠ .error .parenthesis := by
  intro failed
  rcases Machine.exists_fault?_of_run failed with ⟨token, member, depth, found⟩ | ⟨count, left⟩
  · have parenthesis := token.isParenthesis_of_fault? found
    rw [not_isParenthesis_of_mem_polish member] at parenthesis
    cases parenthesis
  · cases left

/-- Reverse Polish order has no parentheses. It is a permutation of the literals and operators that
it is made from, and the literals keep their order. So a text that has tokens never fails to
evaluate because of a parenthesis, and if it has a value its tokens hold one literal more than
binary operators. -/
theorem polish_reorders (tokens : List Token) :
    (∀ token ∈ polish tokens, token.isParenthesis = false) ∧
    (polish tokens).Perm (tokens.filter (!Token.isParenthesis ·)) ∧
    (polish tokens).filter Token.isLiteral = tokens.filter Token.isLiteral ∧
    ∀ text, text ≠ [] → scan text = .ok tokens →
      evaluate text ≠ .error .parenthesis ∧
      ∀ x, evaluate text = .ok x →
        tokens.countP Token.isLiteral = tokens.countP Token.isBinary + 1 := by
  refine ⟨fun _ => not_isParenthesis_of_mem_polish, polish_perm tokens,
    filter_isLiteral_polishFrom [] [] tokens, fun text some_text scanned => ?_⟩
  have ordered : evaluate text = Machine.run (polish tokens) := by
    rw [evaluate_eq some_text, scanned]
    rfl
  rw [ordered]
  refine ⟨run_polish_ne_parenthesis tokens, fun x ran => ?_⟩
  have one := Machine.depth_of_run ran
  rw [depth_polish, depth_eq_countP_sub] at one
  omega

/-- A closing parenthesis without its partner, and an opening one. -/
theorem polish_reorders_unbalanced :
    let text := "2)*(1-√9".toList
    let tokens : List Token := [.literal ['2'], .closing, .operator (.binary .mul), .opening,
      .literal ['1'], .operator (.binary .sub), .operator .root, .literal ['9']]
    let minus_four : Double := .finite ⟨true, leadingUnit, -50, by decide⟩
    polish tokens = [.literal ['2'], .literal ['1'], .literal ['9'], .operator .root,
      .operator (.binary .sub), .operator (.binary .mul)] ∧
    scan text = .ok tokens ∧ evaluate text = .ok minus_four ∧
      evaluate text ≠ .error .parenthesis ∧
      tokens.countP Token.isLiteral = tokens.countP Token.isBinary + 1 := by
  intro text tokens minus_four
  have scanned : scan text = .ok tokens := by decide +kernel
  have value : evaluate text = .ok minus_four := by decide +kernel
  obtain ⟨no_parenthesis, counted⟩ :=
    (polish_reorders tokens).2.2.2 text (by decide) scanned
  exact ⟨by decide, scanned, value, no_parenthesis, counted minus_four value⟩

end DeskCalculator
