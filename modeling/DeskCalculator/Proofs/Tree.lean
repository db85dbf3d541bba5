import DeskCalculator.Polish.Machine

/-!
# Expression trees

What an expression means, apart from how it is written. The tokens of a tree in postorder are an
expression in reverse Polish order, and the stack machine runs them to the value of the tree.
-/
namespace DeskCalculator

inductive Tree where
  | literal (text : List Char)
  | root (operand : Tree)
  | binary (op : BinaryOperator) (left right : Tree)
deriving DecidableEq

namespace Tree

variable {α : Type} [Arithmetic α]

/-- The tokens of a tree, each operator behind its operands. -/
def postorder : Tree → List Token
  | literal text => [.literal text]
  | root operand => operand.postorder ++ [.operator .root]
  | binary op left right => left.postorder ++ right.postorder ++ [.operator (.binary op)]

/-- The value of a tree, or the fault of its leftmost literal that denotes no number. -/
def value : Tree → Except Fault α
  | literal text =>
    match Arithmetic.literal? text with
    | some x => .ok x
    | none => .error (.malformedNumber text)
  | root operand => operand.value.map Arithmetic.root
  | binary op left right => left.value.bind fun x => right.value.map (Arithmetic.binary op x)

end Tree

/-- The text of a literal that denotes no number. -/
def Token.unreadable? (α : Type) [Arithmetic α] : Token → Option (List Char)
  | .literal text => if (Arithmetic.literal? text : Option α).isNone then some text else none
  | _ => none

namespace Tree

variable {α : Type} [Arithmetic α]

/-- The text of the leftmost literal that denotes no number. -/
def unreadable? (α : Type) [Arithmetic α] : Tree → Option (List Char)
  | literal text => (Token.literal text).unreadable? α
  | root operand => operand.unreadable? α
  | binary _ left right => (left.unreadable? α).or (right.unreadable? α)

theorem value_root {operand : Tree} {x : α} (evaluated : (root operand).value = .ok x) :
    ∃ y, operand.value = .ok y ∧ Arithmetic.root y = x := by
  rw [value] at evaluated
  cases inner : (operand.value : Except Fault α) with
  | error fault => simp [inner, Except.map] at evaluated
  | ok y => exact ⟨y, rfl, by simpa [inner, Except.map] using evaluated⟩

theorem value_binary {op : BinaryOperator} {left right : Tree} {x : α}
    (evaluated : (binary op left right).value = .ok x) :
    ∃ y z, left.value = .ok y ∧ right.value = .ok z ∧ Arithmetic.binary op y z = x := by
  rw [value] at evaluated
  cases first : (left.value : Except Fault α) with
  | error fault => simp [first, Except.bind] at evaluated
  | ok y =>
    cases second : (right.value : Except Fault α) with
    | error fault => simp [first, second, Except.bind, Except.map] at evaluated
    | ok z =>
      exact ⟨y, z, rfl, rfl, by simpa [first, second, Except.bind, Except.map] using evaluated⟩

theorem value_of_readable (t : Tree) (readable : t.unreadable? α = none) :
    ∃ x : α, t.value = .ok x := by
  induction t with
  | literal text =>
    cases denoted : (Arithmetic.literal? text : Option α) with
    | none => simp [unreadable?, Token.unreadable?, denoted] at readable
    | some x => exact ⟨x, by simp [value, denoted]⟩
  | root operand ih =>
    obtain ⟨x, evaluated⟩ := ih readable
    exact ⟨Arithmetic.root x, by simp [value, evaluated, Except.map]⟩
  | binary op left right ihl ihr =>
    obtain ⟨left_readable, right_readable⟩ := Option.or_eq_none_iff.mp readable
    obtain ⟨x, first⟩ := ihl left_readable
    obtain ⟨y, second⟩ := ihr right_readable
    exact ⟨Arithmetic.binary op x y, by simp [value, first, second, Except.bind, Except.map]⟩

theorem value_of_unreadable (t : Tree) {text : List Char}
    (unreadable : t.unreadable? α = some text) :
    (t.value : Except Fault α) = .error (.malformedNumber text) := by
  induction t with
  | literal own =>
    cases denoted : (Arithmetic.literal? own : Option α) with
    | none => simp_all [unreadable?, Token.unreadable?, value]
    | some x => simp [unreadable?, Token.unreadable?, denoted] at unreadable
  | root operand ih => simp [value, ih unreadable, Except.map]
  | binary op left right ihl ihr =>
    rcases Option.or_eq_some_iff.mp unreadable with first | ⟨none_left, second⟩
    · simp [value, ihl first, Except.bind]
    · -- the left operand has a value, so the fault is that of the right one
      obtain ⟨x, evaluated⟩ := left.value_of_readable none_left
      simp [value, evaluated, ihr second, Except.bind, Except.map]

end Tree

namespace Machine

variable {α : Type} [Arithmetic α]

/-- A tree in postorder leaves its value on the stack, whatever lies below and whatever follows. -/
theorem runFrom_postorder (t : Tree) (stack : List α) (rest : List Token) :
    runFrom stack (t.postorder ++ rest) = t.value.bind fun x => runFrom (x :: stack) rest := by
  -- an operand leaves its value on the stack below that of the next operand
  induction t generalizing stack rest with
  | literal text =>
    simp only [Tree.postorder, Tree.value, List.singleton_append, runFrom, step]
    cases (Arithmetic.literal? text : Option α) <;> rfl
  | root operand ih =>
    simp only [Tree.postorder, Tree.value, List.append_assoc, List.singleton_append, ih]
    cases (operand.value : Except Fault α) <;> rfl
  | binary op left right ihl ihr =>
    simp only [Tree.postorder, Tree.value, List.append_assoc, List.singleton_append, ihl, ihr]
    cases (left.value : Except Fault α) with
    | error fault => rfl
    | ok x => cases (right.value : Except Fault α) <;> rfl

theorem run_postorder (t : Tree) : run t.postorder = (t.value : Except Fault α) := by
  have ran := runFrom_postorder t ([] : List α) []
  rw [List.append_nil] at ran
  rw [run, ran]
  cases (t.value : Except Fault α) <;> rfl

end Machine

end DeskCalculator
