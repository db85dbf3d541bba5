import DeskCalculator.Polish.Order
import DeskCalculator.Proofs.Run

/-!
# The depth of the stack

How many numbers the machine has on its stack depends on the tokens alone: a literal adds one, a
binary operator takes one away, a root leaves the number as it is. Reverse Polish order moves tokens
but does not change that balance.
-/
namespace DeskCalculator

/-- By how much a token changes the number of values on the stack. -/
def Token.weight : Token → Int
  | .literal _ => 1
  | .operator (.binary _) => -1
  | .operator .root | .opening | .closing => 0

namespace Token

def isLiteral : Token → Bool
  | literal _ => true
  | _ => false

def isBinary : Token → Bool
  | operator (.binary _) => true
  | _ => false

def isParenthesis : Token → Bool
  | opening | closing => true
  | _ => false

end Token

/-- By how much tokens change the number of values on the stack. -/
def depth : List Token → Int
  | [] => 0
  | token :: rest => token.weight + depth rest

@[simp] theorem depth_nil : depth [] = 0 := rfl

@[simp] theorem depth_cons (token : Token) (rest : List Token) :
    depth (token :: rest) = token.weight + depth rest := rfl

@[simp] theorem depth_append (left right : List Token) :
    depth (left ++ right) = depth left + depth right := by
  induction left with
  | nil => simp
  | cons token left ih =>
    simp only [List.cons_append, depth_cons, ih]
    omega

/-- The depth counts the literals, less the binary operators. -/
theorem depth_eq_countP_sub (tokens : List Token) :
    depth tokens = tokens.countP Token.isLiteral - tokens.countP Token.isBinary := by
  induction tokens with
  | nil => rfl
  | cons token rest ih =>
    rcases token with text | (op | _) | _ | _ <;>
      simp only [depth_cons, ih, Token.weight, Token.isLiteral, Token.isBinary, List.countP_cons,
        ↓reduceIte, Bool.false_eq_true] <;> omega

theorem depth_roots (count : Nat) :
    depth ((List.replicate count Operator.root).map .operator) = 0 := by
  induction count with
  | zero => rfl
  | succ count ih => simpa [List.replicate_succ, Token.weight] using ih

/-! ## Reverse Polish order -/

/-- What is waiting when reading starts comes out in addition to what is read, parentheses apart. -/
theorem polishFrom_perm (waiting : List Operator) (outer : List (List Operator))
    (tokens : List Token) :
    (polishFrom waiting outer tokens).Perm
      (tokens.filter (!Token.isParenthesis ·) ++ (waiting ++ outer.flatten).map .operator) := by
  induction tokens generalizing waiting outer with
  | nil => exact List.Perm.refl _
  | cons token rest ih =>
    cases token with
    | literal text => exact (ih waiting outer).cons _
    | opening => exact ih [] (waiting :: outer)
    | closing =>
      -- the next level becomes the innermost one
      have levels : outer.flatten = outer.headD [] ++ outer.tail.flatten := by
        cases outer <;> simp
      have released := (ih (outer.headD []) outer.tail).append_left (waiting.map .operator)
      rw [← levels] at released
      rw [polishFrom, List.map_append]
      exact released.trans (List.perm_append_comm_assoc _ _ _)
    | operator op =>
      -- the operators that are released and those that go on waiting are all of them
      have split : waiting ++ outer.flatten =
          waiting.takeWhile op.yieldsTo ++ (waiting.dropWhile op.yieldsTo ++ outer.flatten) := by
        rw [← List.append_assoc, List.takeWhile_append_dropWhile]
      have behind : (polishFrom (op :: waiting.dropWhile op.yieldsTo) outer rest).Perm
          (.operator op :: (rest.filter (!Token.isParenthesis ·) ++
            (waiting.dropWhile op.yieldsTo ++ outer.flatten).map .operator)) :=
        (ih (op :: waiting.dropWhile op.yieldsTo) outer).trans List.perm_middle
      rw [polishFrom, split, List.map_append]
      exact (behind.append_left _).trans (List.perm_append_comm_assoc _ (Token.operator op :: _) _)

/-- Reverse Polish order moves the operands and operators and leaves the parentheses out. -/
theorem polish_perm (tokens : List Token) :
    (polish tokens).Perm (tokens.filter (!Token.isParenthesis ·)) := by
  have whole := polishFrom_perm [] [] tokens
  rwa [List.nil_append, List.flatten_nil, List.map_nil, List.append_nil] at whole

theorem depth_eq_of_perm {left right : List Token} (perm : left.Perm right) :
    depth left = depth right := by
  induction perm with
  | nil => rfl
  | cons token _ ih => rw [depth_cons, depth_cons, ih]
  | swap first second rest =>
    simp only [depth_cons]
    omega
  | trans _ _ ihl ihr => exact ihl.trans ihr

theorem depth_filter_isParenthesis (tokens : List Token) :
    depth (tokens.filter (!Token.isParenthesis ·)) = depth tokens := by
  induction tokens with
  | nil => rfl
  | cons token rest ih =>
    cases token with
    | literal text => exact congrArg (1 + ·) ih
    | operator op => exact congrArg ((Token.operator op).weight + ·) ih
    | opening | closing => exact ih.trans (Int.zero_add _).symm

theorem depth_polish (tokens : List Token) : depth (polish tokens) = depth tokens :=
  (depth_eq_of_perm (polish_perm tokens)).trans (depth_filter_isParenthesis tokens)

/-! ## The machine -/

namespace Machine

variable {α : Type} [Arithmetic α]

theorem length_of_steps {stack next : List α} {token : Token} (steps : Steps stack token next) :
    (next.length : Int) = stack.length + token.weight := by
  cases steps with
  | literal denoted => simp [Token.weight]
  | root => simp [Token.weight]
  | binary =>
    simp only [Token.weight, List.length_cons]
    omega

theorem length_runFrom {stack final : List α} {tokens : List Token}
    (ran : runFrom stack tokens = .ok final) :
    (final.length : Int) = stack.length + depth tokens := by
  induction tokens generalizing stack with
  | nil =>
    cases ran
    simp
  | cons token rest ih =>
    obtain ⟨next, first, behind⟩ := runFrom_cons_eq_ok_iff.mp ran
    have one := length_of_steps first
    have last := ih behind
    rw [depth_cons]
    omega

/-- Tokens that run to a value hold one literal more than binary operators. -/
theorem depth_of_run {tokens : List Token} {x : α} (ran : run tokens = .ok x) :
    depth tokens = 1 := by
  have length := length_runFrom (run_eq_ok_iff.mp ran)
  simp only [List.length_nil, List.length_singleton] at length
  omega

end Machine

end DeskCalculator
