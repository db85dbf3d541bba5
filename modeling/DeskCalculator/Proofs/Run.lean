import DeskCalculator.Polish.Machine

/-!
# Runs

What a step of the stack machine does to the stack, and how runs are put together from steps and
from shorter runs. Proofs about the machine go by the cases of a step.
-/
namespace DeskCalculator

namespace Machine

variable {α : Type} [Arithmetic α] {stack next final : List α} {token : Token}
  {tokens left right : List Token} {x : α}

/-- A literal puts its number on the stack, an operator a result in the place of its operands. -/
inductive Steps : List α → Token → List α → Prop where
  | literal {text : List Char} {x : α} {stack : List α}
      (denoted : Arithmetic.literal? text = some x) : Steps stack (.literal text) (x :: stack)
  | root {x : α} {rest : List α} :
      Steps (x :: rest) (.operator .root) (Arithmetic.root x :: rest)
  | binary {op : BinaryOperator} {left right : α} {rest : List α} :
      Steps (right :: left :: rest) (.operator (.binary op))
        (Arithmetic.binary op left right :: rest)

theorem step_eq_ok_iff : step stack token = .ok next ↔ Steps stack token next := by
  constructor
  · intro ran
    match token, stack with
    | .literal text, stack =>
      simp only [step] at ran
      split at ran
      · next x denoted =>
        cases ran
        exact .literal denoted
      · cases ran
    | .operator .root, x :: rest =>
      cases ran
      exact .root
    | .operator (.binary op), right :: left :: rest =>
      cases ran
      exact .binary
    | .operator .root, [] | .operator (.binary op), [] | .operator (.binary op), [x]
    | .opening, _ | .closing, _ => cases ran
  · intro steps
    cases steps with
    | literal denoted => simp only [step, denoted]
    | root | binary => rfl

theorem runFrom_cons_eq_ok_iff : runFrom stack (token :: tokens) = .ok final ↔
    ∃ next, Steps stack token next ∧ runFrom next tokens = .ok final := by
  simp only [runFrom, ← step_eq_ok_iff]
  cases step stack token <;> simp [Except.bind]

theorem runFrom_append (stack : List α) (left right : List Token) :
    runFrom stack (left ++ right) = (runFrom stack left).bind fun next => runFrom next right := by
  induction left generalizing stack with
  | nil => rfl
  | cons token left ih =>
    simp only [List.cons_append, runFrom]
    cases step stack token with
    | error fault => rfl
    | ok next => exact ih next

theorem runFrom_append_eq_ok_iff : runFrom stack (left ++ right) = .ok final ↔
    ∃ next, runFrom stack left = .ok next ∧ runFrom next right = .ok final := by
  rw [runFrom_append]
  cases runFrom stack left with
  | error fault => simp [Except.bind]
  | ok next => simp [Except.bind]

theorem runFrom_concat_eq_ok_iff : runFrom stack (tokens ++ [token]) = .ok final ↔
    ∃ next, runFrom stack tokens = .ok next ∧ Steps next token final := by
  rw [runFrom_append_eq_ok_iff]
  refine exists_congr fun next => and_congr_right fun _ => ?_
  rw [runFrom_cons_eq_ok_iff]
  simp only [runFrom, Except.ok.injEq, exists_eq_right]

theorem run_eq_ok_iff : run tokens = .ok x ↔ runFrom [] tokens = .ok [x] := by
  unfold run
  cases runFrom ([] : List α) tokens with
  | error fault => simp [Except.bind]
  | ok stack =>
    match stack with
    | [] => simp [Except.bind]
    | [y] => simp [Except.bind]
    | y :: z :: rest => simp [Except.bind]

end Machine

end DeskCalculator
