import DeskCalculator.Proofs.Failure
import DeskCalculator.Proofs.Number.Nearest
import Mathlib.Data.Nat.Sqrt

/-!
# Values that are not finite

An operand that is not finite makes a binary operation indeterminate, and an indeterminate value
stays one whatever is done with it. Every value on the stack has a part in the final one, so a
single value of that kind on the way decides the outcome. What is left are infinities that arise at
the very end: the root of a finite number is finite, so behind the literal or the operation that
gives the infinity only roots can follow.
-/
namespace DeskCalculator

/-! ## Square roots -/

/-- The integer root of a scaled mantissa has at most 81 bits. -/
theorem sqrt_scaled_lt {mantissa shift : Nat} (short : mantissa < 2 * leadingUnit)
    (few : shift ≤ 109) : Nat.sqrt (mantissa * 2 ^ shift) < 2 ^ 81 := by
  refine Nat.sqrt_lt'.mpr ?_
  calc mantissa * 2 ^ shift < 2 * leadingUnit * 2 ^ shift :=
        Nat.mul_lt_mul_of_pos_right short (Nat.two_pow_pos shift)
    _ ≤ 2 * leadingUnit * 2 ^ 109 :=
        Nat.mul_le_mul_left _ (Nat.pow_le_pow_right (by decide) few)
    _ = (2 ^ 81) ^ 2 := by decide

/-- Far below the largest double, nothing rounds to an infinity. -/
theorem exists_nearest_eq_of_le {count : Nat} {exponent : Int} (pos : 0 < count)
    (few : count ≤ 2 ^ 82) (low : exponent ≤ 430) :
    ∃ y, Double.nearest false ((count : Rat) * (2 : Rat) ^ exponent) = .finite y := by
  let bound : FiniteDouble := ⟨false, leadingUnit, 460, by decide⟩
  have within : (count : Rat) * (2 : Rat) ^ exponent ≤ bound.magnitude :=
    calc (count : Rat) * (2 : Rat) ^ exponent ≤ (2 : Rat) ^ (82 : Int) * (2 : Rat) ^ (430 : Int) :=
          mul_le_mul (by exact_mod_cast few) (two_zpow_le low) (two_zpow_pos _).le
            (two_zpow_pos _).le
      _ = (2 : Rat) ^ ((460 : Int) + 52) := (zpow_add₀ (by norm_num) _ _).symm
      _ = bound.magnitude := (leadingUnit_mul_zpow 460).symm
  exact Double.exists_nearest_eq_finite false
    (mul_pos (Nat.cast_pos.mpr pos) (two_zpow_pos exponent)) within

/-- The root of a finite number is finite: it has about half the exponent of the number. -/
theorem FiniteDouble.exists_sqrtMagnitude_eq {x : FiniteDouble} (pos : 0 < x.mantissa) :
    ∃ y, x.sqrtMagnitude = .finite y := by
  obtain ⟨short, _, high, _⟩ := x.canonical
  rw [greatestExponent] at high
  rw [sqrtMagnitude]
  -- the root is that of a number with an even exponent, of which it has the half
  set half := (x.exponent - 108) / 2 with half_eq
  set shift := (x.exponent - 2 * half).toNat with shift_eq
  set root := Nat.sqrt (x.mantissa * Nat.pow 2 shift)
  have root_lt : root < 2 ^ 81 := sqrt_scaled_lt short (by omega)
  have root_pos : 0 < root := Nat.sqrt_pos.mpr (Nat.mul_pos pos (Nat.two_pow_pos shift))
  refine exists_nearest_eq_of_le ?_ ?_ (by omega)
  · omega
  · split <;> omega

/-- An infinity has a root only if it is positive, and it is its own root. No other root is
infinite. -/
theorem Double.sqrt_eq_infinite_iff (x : Double) (negative : Bool) :
    x.sqrt = .infinite negative ↔ x = .infinite false ∧ negative = false := by
  cases x with
  | nan => simp [sqrt]
  | infinite sign => cases sign <;> simp [sqrt, eq_comm]
  | finite x =>
    simp only [sqrt, reduceCtorEq, false_and, iff_false]
    split
    · simp
    · next nonzero =>
      have pos : 0 < x.mantissa :=
        Nat.pos_of_ne_zero (by simpa [FiniteDouble.isZero] using nonzero)
      obtain ⟨y, root⟩ := x.exists_sqrtMagnitude_eq pos
      split <;> simp [root]

/-! ## Binary operations -/

namespace BinaryOperator

variable (op : BinaryOperator) {x y : Double}

theorem apply_eq_nan (undefined : x.isFinite = false ∨ y.isFinite = false) :
    op.apply x y = .nan := by
  match x, y, undefined with
  | .nan, _, _ | .infinite _, _, _ | .finite _, .nan, _ | .finite _, .infinite _, _ => rfl
  | .finite _, .finite _, undefined => simp [Double.isFinite] at undefined

theorem exists_finite_of_apply_ne_nan (defined : op.apply x y ≠ .nan) :
    ∃ u v, x = .finite u ∧ y = .finite v := by
  match x, y with
  | .finite u, .finite v => exact ⟨u, v, rfl, rfl⟩
  | .nan, _ | .infinite _, _ | .finite _, .nan | .finite _, .infinite _ => exact absurd rfl defined

end BinaryOperator

namespace Machine

/-! ## What happens during a run -/

section Events

variable {α : Type} [Arithmetic α]

/-- While the tokens are run, one of them leaves the value on top of the stack. -/
def Pushes (tokens : List Token) (x : α) : Prop :=
  ∃ front token rest stack below, tokens = front ++ token :: rest ∧
    runFrom [] front = .ok stack ∧ step stack token = .ok (x :: below)

/-- While the tokens are run, one of them is a binary operator that has the value as an operand. -/
def Consumes (tokens : List Token) (x : α) : Prop :=
  ∃ front op rest right left below, tokens = front ++ .operator (.binary op) :: rest ∧
    runFrom [] front = .ok (right :: left :: below) ∧ (x = left ∨ x = right)

end Events

/-- The last of the tokens gives an infinity and has none to start from: it is a literal that
denotes one, or a binary operator with finite operands. -/
inductive Overflows (negative : Bool) : List Token → Prop where
  | literal {text : List Char} (denoted : Double.ofNumeral? text = some (.infinite negative)) :
      Overflows negative [.literal text]
  | binary {front : List Token} {op : BinaryOperator} {left right : FiniteDouble}
      (operands : runFrom ([] : List Double) front = .ok [.finite right, .finite left])
      (result : op.onFinite left right = .infinite negative) :
      Overflows negative (front ++ [.operator (.binary op)])

variable {stack next : List Double} {token : Token} {tokens front rest : List Token} {v : Double}
  {negative : Bool}

/-! ## Indeterminate values -/

theorem nan_mem_of_steps (member : .nan ∈ stack) (steps : Steps stack token next) :
    .nan ∈ next := by
  cases steps with
  | literal denoted => exact List.mem_cons_of_mem _ member
  | root =>
    rcases List.mem_cons.mp member with rfl | below
    · exact List.mem_cons_self
    · exact List.mem_cons_of_mem _ below
  | @binary op left right rest =>
    -- as an operand it makes the result indeterminate, below the operands it stays where it is
    rcases List.mem_cons.mp member with rfl | member
    · exact List.mem_cons.mpr (.inl (op.apply_eq_nan (.inr rfl)).symm)
    · rcases List.mem_cons.mp member with rfl | below
      · exact List.mem_cons.mpr (.inl (op.apply_eq_nan (.inl rfl)).symm)
      · exact List.mem_cons_of_mem _ below

theorem nan_mem_runFrom {final : List Double} (member : .nan ∈ stack)
    (ran : runFrom stack tokens = .ok final) : .nan ∈ final := by
  induction tokens generalizing stack with
  | nil =>
    cases ran
    exact member
  | cons token rest ih =>
    obtain ⟨next, first, behind⟩ := runFrom_cons_eq_ok_iff.mp ran
    exact ih (nan_mem_of_steps member first) behind

/-- A run with a step that leaves an indeterminate value on the stack ends with one. -/
theorem eq_nan_of_step (ran : run (front ++ token :: rest) = .ok v)
    (before : runFrom [] front = .ok stack) (first : step stack token = .ok next)
    (member : .nan ∈ next) : v = .nan := by
  have behind := run_eq_ok_iff.mp ran
  rw [runFrom_append, before] at behind
  change (step stack token).bind _ = _ at behind
  rw [first] at behind
  exact (List.mem_singleton.mp (nan_mem_runFrom member behind)).symm

theorem eq_nan_of_pushes (ran : run tokens = .ok v) (pushes : Pushes tokens Double.nan) :
    v = .nan := by
  obtain ⟨front, token, rest, stack, below, rfl, before, first⟩ := pushes
  exact eq_nan_of_step ran before first List.mem_cons_self

theorem eq_nan_of_consumes (ran : run tokens = .ok v)
    (consumes : Consumes tokens (Double.infinite negative)) : v = .nan := by
  obtain ⟨front, op, rest, right, left, below, rfl, before, operand⟩ := consumes
  refine eq_nan_of_step ran before rfl (List.mem_cons.mpr (.inl (op.apply_eq_nan ?_).symm))
  rcases operand with rfl | rfl
  · exact .inl rfl
  · exact .inr rfl

/-! ## Infinite values -/

/-- A step after which there is an infinity and nothing else: a literal on an empty stack, the root
of positive infinity, or a binary operator that finds two finite operands. -/
theorem infinite_cases_of_steps (steps : Steps stack token [.infinite negative]) :
    (∃ text, token = .literal text ∧ stack = [] ∧
      Double.ofNumeral? text = some (.infinite negative)) ∨
    (token = .operator .root ∧ stack = [.infinite false] ∧ negative = false) ∨
    ∃ op left right, token = .operator (.binary op) ∧ stack = [.finite right, .finite left] ∧
      op.onFinite left right = .infinite negative := by
  generalize left_behind : [Double.infinite negative] = next at steps
  cases steps with
  | literal denoted =>
    obtain ⟨rfl, rfl⟩ := List.cons_eq_cons.mp left_behind
    exact .inl ⟨_, rfl, rfl, denoted⟩
  | @root x rest =>
    obtain ⟨root, rfl⟩ := List.cons_eq_cons.mp left_behind
    obtain ⟨rfl, rfl⟩ := (Double.sqrt_eq_infinite_iff x negative).mp root.symm
    exact .inr (.inl ⟨rfl, rfl, rfl⟩)
  | @binary op left right rest =>
    obtain ⟨result, rfl⟩ := List.cons_eq_cons.mp left_behind
    -- an operand that is not finite would have made the result indeterminate
    change _ = op.apply left right at result
    obtain ⟨x, y, rfl, rfl⟩ := op.exists_finite_of_apply_ne_nan (by rw [← result]; simp)
    exact .inr (.inr ⟨op, x, y, rfl, rfl, result.symm⟩)

theorem exists_overflows_of_run (ran : run tokens = .ok (Double.infinite negative)) :
    ∃ front count, tokens = front ++ List.replicate count (.operator .root) ∧
      Overflows negative front ∧ (count = 0 ∨ negative = false) := by
  -- the last token gives the infinity itself, or it is the root of one that came before it
  induction tokens using List.reverseRecOn generalizing negative with
  | nil => cases ran
  | append_singleton front token ih =>
    obtain ⟨stack, before, last⟩ := runFrom_concat_eq_ok_iff.mp (run_eq_ok_iff.mp ran)
    rcases infinite_cases_of_steps last with ⟨text, rfl, rfl, denoted⟩ | ⟨rfl, rfl, rfl⟩ |
      ⟨op, left, right, rfl, rfl, result⟩
    · -- nothing lies below the literal, so nothing came before it
      obtain ⟨faultless, height⟩ := exists_runFrom_nil_iff.mp ⟨[], before, rfl⟩
      rw [faultless.depth_eq_zero_iff.mp height]
      exact ⟨_, 0, rfl, .literal denoted, .inl rfl⟩
    · obtain ⟨first, count, rfl, overflows, _⟩ := ih (run_eq_ok_iff.mpr before)
      refine ⟨first, count + 1, ?_, overflows, .inr rfl⟩
      rw [List.replicate_succ', List.append_assoc]
    · exact ⟨_, 0, (List.append_nil _).symm, .binary before result, .inl rfl⟩

theorem run_of_overflows (overflows : Overflows negative front) :
    run front = .ok (Double.infinite negative) := by
  rw [run_eq_ok_iff]
  cases overflows with
  | literal denoted => exact runFrom_cons_eq_ok_iff.mpr ⟨_, .literal denoted, rfl⟩
  | binary operands result =>
    rw [← result]
    exact runFrom_concat_eq_ok_iff.mpr ⟨_, operands, .binary⟩

/-- Positive infinity is its own root, however often it is taken. -/
theorem run_append_roots (ran : run front = .ok (Double.infinite false)) (count : Nat) :
    run (front ++ List.replicate count (.operator .root)) = .ok (Double.infinite false) := by
  induction count with
  | zero => rwa [List.replicate_zero, List.append_nil]
  | succ count ih =>
    rw [List.replicate_succ', ← List.append_assoc, run_eq_ok_iff]
    exact runFrom_concat_eq_ok_iff.mpr ⟨_, run_eq_ok_iff.mp ih, .root⟩

theorem run_eq_infinite_iff : run tokens = .ok (Double.infinite negative) ↔
    ∃ front count, tokens = front ++ List.replicate count (.operator .root) ∧
      Overflows negative front ∧ (count = 0 ∨ negative = false) := by
  refine ⟨exists_overflows_of_run, ?_⟩
  rintro ⟨front, count, rfl, overflows, rfl | rfl⟩
  · rw [List.replicate_zero, List.append_nil]
    exact run_of_overflows overflows
  · exact run_append_roots (run_of_overflows overflows) count

/-- A value that is not finite decides what a run comes to. If the run puts an indeterminate value
on the stack, or a binary operator has an infinite operand, the final value is indeterminate. The
final value is an infinity if and only if the tokens are a literal that denotes one, or end in a
binary operator that makes one of finite operands, with nothing but roots behind, and none behind a
negative infinity. For the root of an indeterminate value and of a negative infinity is
indeterminate, and positive infinity is its own root. -/
theorem nonfinite_of_run (ran : run tokens = .ok v) :
    (Pushes tokens Double.nan → v = .nan) ∧
    (∀ negative, Consumes tokens (Double.infinite negative) → v = .nan) ∧
    (∀ negative, v = .infinite negative ↔
      ∃ front count, tokens = front ++ List.replicate count (.operator .root) ∧
        Overflows negative front ∧ (count = 0 ∨ negative = false)) ∧
    Double.nan.sqrt = .nan ∧ (Double.infinite true).sqrt = .nan ∧
      (Double.infinite false).sqrt = .infinite false := by
  refine ⟨eq_nan_of_pushes ran, fun _ => eq_nan_of_consumes ran, fun negative => ?_,
    rfl, rfl, rfl⟩
  rw [← run_eq_infinite_iff, ran]
  exact ⟨congrArg Except.ok, Except.ok.inj⟩

/-- Roots of four over zero: the division comes to an infinity, and the roots keep it. -/
theorem nonfinite_of_run_roots :
    let tokens : List Token := [.literal ['4'], .literal ['0'], .operator (.binary .div),
      .operator .root, .operator .root]
    run tokens = .ok (Double.infinite false) ∧ ¬Pushes tokens Double.nan ∧
      ¬Consumes tokens (Double.infinite false) ∧
      ∃ front count, tokens = front ++ List.replicate count (.operator .root) ∧
        Overflows false front ∧ (count = 0 ∨ false = false) := by
  intro tokens
  have ran : run tokens = .ok (Double.infinite false) := by decide +kernel
  obtain ⟨pushes, consumes, infinite, _⟩ := nonfinite_of_run ran
  refine ⟨ran, fun pushed => ?_, fun consumed => ?_, (infinite false).mp rfl⟩
  · cases pushes pushed
  · cases consumes false consumed

end Machine

end DeskCalculator
