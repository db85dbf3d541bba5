import DeskCalculator.Proofs.Run
import DeskCalculator.Proofs.Tree
import Mathlib.Data.List.Forall2

/-!
# Forests

Trees can be computed with as numbers can: a literal is a leaf, and an operation makes a node of its
operands. Run on trees, the machine holds a forest on its stack instead of the values of its trees,
and this forest tells which tokens have been run. So the tokens that run to a value are the
postorders of the trees with that value, and no two trees have the same postorder.
-/
namespace DeskCalculator

/-- Trees as what a machine computes with. Every literal is a leaf, whether it denotes a number or
not. -/
instance : Arithmetic Tree := ⟨fun text => some (.literal text), .root, .binary⟩

namespace Tree

@[simp] theorem arithmetic_root (operand : Tree) : Arithmetic.root operand = root operand := rfl

@[simp] theorem arithmetic_binary (op : BinaryOperator) (left right : Tree) :
    Arithmetic.binary op left right = binary op left right := rfl

/-- Among trees, a tree is its own value. -/
theorem value_eq_self (t : Tree) : (t.value : Except Fault Tree) = .ok t := by
  induction t with
  | literal text => rfl
  | root operand ih =>
    rw [value, ih]
    rfl
  | binary op left right ihl ihr =>
    rw [value, ihl, ihr]
    rfl

/-- The machine builds a tree anew from its postorder. -/
theorem run_postorder_eq_self (t : Tree) : (Machine.run t.postorder : Except Fault Tree) = .ok t :=
  (Machine.run_postorder t).trans t.value_eq_self

theorem postorder_injective : Function.Injective postorder := by
  intro t u same
  have built := t.run_postorder_eq_self
  rw [same, u.run_postorder_eq_self] at built
  exact (Except.ok.inj built).symm

end Tree

/-- The tokens of the trees on a stack, those of the bottom tree first. -/
def forestTokens (forest : List Tree) : List Token := forest.reverse.flatMap Tree.postorder

@[simp] theorem forestTokens_cons (t : Tree) (forest : List Tree) :
    forestTokens (t :: forest) = forestTokens forest ++ t.postorder := by
  simp [forestTokens]

namespace Machine

variable {α : Type} [Arithmetic α] {stack next : List α} {forest grown : List Tree} {token : Token}
  {tokens : List Token} {x : α}

/-! ## What has been run -/

theorem forestTokens_of_steps (steps : Steps forest token grown) :
    forestTokens grown = forestTokens forest ++ [token] := by
  cases steps with
  | literal denoted =>
    -- the number that a literal denotes here is its leaf
    cases denoted
    exact forestTokens_cons _ _
  | root => simp [Tree.postorder]
  | binary => simp [Tree.postorder]

theorem forestTokens_runFrom (ran : runFrom forest tokens = .ok grown) :
    forestTokens grown = forestTokens forest ++ tokens := by
  induction tokens generalizing forest with
  | nil =>
    cases ran
    rw [List.append_nil]
  | cons token rest ih =>
    obtain ⟨next, first, behind⟩ := runFrom_cons_eq_ok_iff.mp ran
    rw [ih behind, forestTokens_of_steps first, List.append_assoc, List.singleton_append]

/-! ## The values of a forest -/

/-- The values on a stack are those of the trees of a forest. -/
def Values (stack : List α) (forest : List Tree) : Prop :=
  List.Forall₂ (fun x t => t.value = .ok x) stack forest

/-- A step on the values is one on their trees, and these have the new values. -/
theorem exists_steps_of_values (values : Values stack forest) (steps : Steps stack token next) :
    ∃ grown, Steps forest token grown ∧ Values next grown := by
  cases steps with
  | literal denoted => exact ⟨_, .literal rfl, .cons (by simp [Tree.value, denoted]) values⟩
  | root =>
    cases values with
    | cons operand rest =>
      exact ⟨_, .root, .cons (by simp [Tree.value, operand, Except.map]) rest⟩
  | binary =>
    cases values with
    | cons second values =>
      cases values with
      | cons first rest =>
        refine ⟨_, .binary, .cons ?_ rest⟩
        simp [Tree.value, first, second, Except.bind, Except.map]

theorem exists_runFrom_of_values {final : List α} (values : Values stack forest)
    (ran : runFrom stack tokens = .ok final) :
    ∃ grown, runFrom forest tokens = .ok grown ∧ Values final grown := by
  -- both machines take the same steps, and after each the forest still has the values
  induction tokens generalizing stack forest with
  | nil =>
    cases ran
    exact ⟨forest, rfl, values⟩
  | cons token rest ih =>
    obtain ⟨next, first, behind⟩ := runFrom_cons_eq_ok_iff.mp ran
    obtain ⟨grown, built, kept⟩ := exists_steps_of_values values first
    obtain ⟨all, built_all, kept_all⟩ := ih kept behind
    exact ⟨all, runFrom_cons_eq_ok_iff.mpr ⟨grown, built, built_all⟩, kept_all⟩

/-- Tokens that run to a value are the postorder of a tree with this value. -/
theorem exists_tree_of_run (ran : run tokens = .ok x) :
    ∃ t : Tree, t.postorder = tokens ∧ t.value = .ok x := by
  have start : Values ([] : List α) [] := .nil
  obtain ⟨grown, built, values⟩ := exists_runFrom_of_values start (run_eq_ok_iff.mp ran)
  match grown, values with
  | [t], .cons value .nil =>
    -- the one tree that is left holds all the tokens
    refine ⟨t, ?_, value⟩
    simpa [forestTokens] using forestTokens_runFrom built

/-- The machine accepts the postorders of trees and nothing else: tokens run to a value if and only
if they are the postorder of a tree with this value. There is only one such tree. -/
theorem run_eq_ok_iff_postorder (tokens : List Token) (x : α) :
    (run tokens = .ok x ↔ ∃ t : Tree, t.postorder = tokens ∧ t.value = .ok x) ∧
      Function.Injective Tree.postorder := by
  refine ⟨⟨exists_tree_of_run, ?_⟩, Tree.postorder_injective⟩
  rintro ⟨t, rfl, value⟩
  rw [run_postorder, value]

/-- The operands of a difference, the second of them a root, in the order in which they stand. -/
theorem run_eq_ok_iff_postorder_difference :
    let tokens : List Token := [.literal ['2'], .literal ['9'], .operator .root,
      .operator (.binary .sub)]
    let minus_one : Double := .finite ⟨true, leadingUnit, -52, by decide⟩
    let t : Tree := .binary .sub (.literal ['2']) (.root (.literal ['9']))
    (∃ u : Tree, u.postorder = tokens ∧ u.value = .ok minus_one) ∧
      ∀ u : Tree, u.postorder = tokens → u = t := by
  intro tokens minus_one t
  obtain ⟨accepts, unique⟩ := run_eq_ok_iff_postorder tokens minus_one
  have ran : run tokens = .ok minus_one := by decide +kernel
  exact ⟨accepts.mp ran, fun u order => unique order⟩

end Machine

end DeskCalculator
