import DeskCalculator.Proofs.Depth

/-!
# Where a run fails

The machine stops at the first token that it cannot run: a literal that denotes no number, an
operator that lacks operands, or a parenthesis. How many operands there are is the depth of the
tokens before, so the place and the cause of a failure can be read off the tokens. If it runs them
all, the depth of the whole is the number of values that are left.
-/
namespace DeskCalculator

variable {α : Type} [Arithmetic α] {token : Token} {tokens : List Token} {fault : Fault}

/-- The fault of a token that stands behind tokens of some depth; `none` if it can be run. -/
def Token.fault? (α : Type) [Arithmetic α] (depth : Int) : Token → Option Fault
  | .literal text =>
    if (Arithmetic.literal? text : Option α).isNone then some (.malformedNumber text) else none
  | .operator .root => if depth < 1 then some (.missingOperand .root) else none
  | .operator (.binary op) => if depth < 2 then some (.missingOperand (.binary op)) else none
  | .opening | .closing => some .parenthesis

/-- Every token can be run, where `below` is the depth at the start. -/
def Faultless (α : Type) [Arithmetic α] (below : Int) (tokens : List Token) : Prop :=
  ∀ front token rest, tokens = front ++ token :: rest → token.fault? α (below + depth front) = none

/-- The fault is that of the leftmost token that cannot be run, where `below` is the depth at the
start. -/
def FirstFault (α : Type) [Arithmetic α] (below : Int) (tokens : List Token) (fault : Fault) :
    Prop :=
  ∃ front token rest, tokens = front ++ token :: rest ∧ Faultless α below front ∧
    token.fault? α (below + depth front) = some fault

/-! ## The first fault -/

theorem faultless_nil (below : Int) : Faultless α below [] := by
  intro front token rest split
  simp at split

theorem faultless_cons_iff {below : Int} : Faultless α below (token :: tokens) ↔
    token.fault? α below = none ∧ Faultless α (below + token.weight) tokens := by
  constructor
  · intro faultless
    refine ⟨by simpa using faultless [] token tokens rfl, fun front next rest split => ?_⟩
    have behind := faultless (token :: front) next rest (by rw [split, List.cons_append])
    rwa [depth_cons, ← Int.add_assoc] at behind
  · rintro ⟨first, behind⟩ front next rest split
    rcases List.cons_eq_append_iff.mp split with ⟨rfl, same⟩ | ⟨front, rfl, rfl⟩
    · cases same
      simpa using first
    · rw [depth_cons, ← Int.add_assoc]
      exact behind front next rest rfl

theorem not_firstFault_nil {below : Int} : ¬FirstFault α below [] fault := by
  rintro ⟨front, token, rest, split, _⟩
  simp at split

theorem firstFault_cons_iff {below : Int} : FirstFault α below (token :: tokens) fault ↔
    token.fault? α below = some fault ∨
      token.fault? α below = none ∧ FirstFault α (below + token.weight) tokens fault := by
  constructor
  · rintro ⟨front, next, rest, split, faultless, found⟩
    rcases List.cons_eq_append_iff.mp split with ⟨rfl, same⟩ | ⟨front, rfl, rfl⟩
    · cases same
      exact .inl (by simpa using found)
    · obtain ⟨first, behind⟩ := faultless_cons_iff.mp faultless
      rw [depth_cons, ← Int.add_assoc] at found
      exact .inr ⟨first, front, next, rest, rfl, behind, found⟩
  · rintro (first | ⟨first, front, next, rest, rfl, behind, found⟩)
    · exact ⟨[], token, tokens, rfl, faultless_nil below, by simpa using first⟩
    · refine ⟨token :: front, next, rest, rfl, faultless_cons_iff.mpr ⟨first, behind⟩, ?_⟩
      rwa [depth_cons, ← Int.add_assoc]

/-! ## Causes -/

theorem Token.eq_literal_of_fault? {depth : Int} {literal : List Char}
    (found : token.fault? α depth = some (.malformedNumber literal)) :
    token = .literal literal ∧ (Arithmetic.literal? literal : Option α) = none := by
  rcases token with text | (op | _) | _ | _
  · simp only [fault?, Option.ite_none_right_eq_some, Option.isNone_iff_eq_none] at found
    obtain ⟨unreadable, same⟩ := found
    cases same
    exact ⟨rfl, unreadable⟩
  all_goals simp [fault?] at found

theorem Token.isParenthesis_of_fault? {depth : Int}
    (found : token.fault? α depth = some .parenthesis) : token.isParenthesis = true := by
  rcases token with text | (op | _) | _ | _
  case opening | closing => rfl
  all_goals simp [fault?] at found

/-! ## Depth -/

/-- A token that can be run leaves a value behind. -/
theorem Token.one_le_of_fault? {below : Int} (runs : token.fault? α below = none)
    (start : 0 ≤ below) : 1 ≤ below + token.weight := by
  match token, runs with
  | .literal text, _ =>
    rw [weight]
    omega
  | .operator .root, runs =>
    have enough : ¬below < 1 := by simpa [fault?] using runs
    rw [weight]
    omega
  | .operator (.binary op), runs =>
    have enough : ¬below < 2 := by simpa [fault?] using runs
    rw [weight]
    omega

theorem Faultless.one_le_depth {below : Int} (faultless : Faultless α below tokens)
    (start : 0 ≤ below) (some_token : tokens ≠ []) : 1 ≤ below + depth tokens := by
  induction tokens generalizing below with
  | nil => exact absurd rfl some_token
  | cons token rest ih =>
    obtain ⟨runs, behind⟩ := faultless_cons_iff.mp faultless
    have first := token.one_le_of_fault? runs start
    rw [depth_cons, ← Int.add_assoc]
    by_cases last : rest = []
    · rw [last, depth_nil, Int.add_zero]
      exact first
    · exact ih behind (by omega) last

/-- Nothing is left on the stack only where there was nothing to run. -/
theorem Faultless.depth_eq_zero_iff (faultless : Faultless α 0 tokens) :
    depth tokens = 0 ↔ tokens = [] := by
  constructor
  · intro zero
    refine Decidable.byContradiction fun some_token => ?_
    have left := faultless.one_le_depth (Int.le_refl 0) some_token
    omega
  · rintro rfl
    rfl

/-! ## The machine -/

namespace Machine

variable {stack : List α}

/-- Whether a token can be run depends on the height of the stack alone. -/
theorem step_eq_error_iff :
    step stack token = .error fault ↔ token.fault? α stack.length = some fault := by
  match token, stack with
  | .literal text, stack =>
    cases denoted : (Arithmetic.literal? text : Option α) <;>
      simp [Token.fault?, step, denoted]
  | .operator .root, [] | .operator (.binary op), [] | .operator (.binary op), [x]
  | .opening, _ | .closing, _ => simp [Token.fault?, step]
  | .operator .root, x :: rest =>
    have enough : ¬((x :: rest).length : Int) < 1 := by
      rw [List.length_cons]
      omega
    simp only [Token.fault?, step, if_neg enough, reduceCtorEq]
  | .operator (.binary op), right :: left :: rest =>
    have enough : ¬((right :: left :: rest).length : Int) < 2 := by
      rw [List.length_cons, List.length_cons]
      omega
    simp only [Token.fault?, step, if_neg enough, reduceCtorEq]

theorem exists_step_iff :
    (∃ next, step stack token = .ok next) ↔ token.fault? α stack.length = none := by
  cases ran : step stack token with
  | error fault => simp [step_eq_error_iff.mp ran]
  | ok next =>
    have runs : token.fault? α stack.length = none := by
      refine Option.eq_none_iff_forall_ne_some.mpr fun fault found => ?_
      rw [step_eq_error_iff.mpr found] at ran
      cases ran
    simp [runs]

theorem runFrom_eq_error_iff :
    runFrom stack tokens = .error fault ↔ FirstFault α stack.length tokens fault := by
  -- a step changes the height of the stack by the weight of its token, as it does the depth
  induction tokens generalizing stack with
  | nil => simp [runFrom, not_firstFault_nil]
  | cons token rest ih =>
    rw [firstFault_cons_iff, runFrom]
    cases ran : step stack token with
    | error own => simp [step_eq_error_iff.mp ran, Except.bind]
    | ok next =>
      simp only [exists_step_iff.mp ⟨next, ran⟩, ← length_of_steps (step_eq_ok_iff.mp ran),
        reduceCtorEq, false_or, true_and]
      exact ih

theorem exists_runFrom_iff :
    (∃ final, runFrom stack tokens = .ok final) ↔ Faultless α stack.length tokens := by
  induction tokens generalizing stack with
  | nil => simp [runFrom, faultless_nil]
  | cons token rest ih =>
    rw [faultless_cons_iff, runFrom]
    cases ran : step stack token with
    | error own => simp [step_eq_error_iff.mp ran, Except.bind]
    | ok next =>
      simp only [exists_step_iff.mp ⟨next, ran⟩, ← length_of_steps (step_eq_ok_iff.mp ran),
        true_and]
      exact ih

/-- Whether tokens can be run, and how many values they leave, depends on the height of the stack
alone. -/
theorem exists_runFrom_of_length_eq {stack' final : List α} (same : stack.length = stack'.length)
    (ran : runFrom stack tokens = .ok final) :
    ∃ final', runFrom stack' tokens = .ok final' ∧ final.length = final'.length := by
  have faultless := exists_runFrom_iff.mp ⟨final, ran⟩
  rw [same] at faultless
  obtain ⟨final', ran'⟩ := exists_runFrom_iff.mpr faultless
  have length := length_runFrom ran
  have length' := length_runFrom ran'
  exact ⟨final', ran', by omega⟩

/-- A run fails on its way, or it ends with a number of values other than one. -/
theorem run_eq_error_iff_runFrom : (run tokens : Except Fault α) = .error fault ↔
    runFrom ([] : List α) tokens = .error fault ∨
      ∃ final : List α, runFrom [] tokens = .ok final ∧ final.length ≠ 1 ∧
        fault = .valuesLeft final.length := by
  unfold run
  cases runFrom ([] : List α) tokens with
  | error own => simp [Except.bind]
  | ok final =>
    match final with
    | [] | [x] | x :: y :: rest => simp [Except.bind, eq_comm]

/-- Tokens that can all be run leave as many values as their depth says. -/
theorem exists_runFrom_nil_iff {count : Nat} :
    (∃ final : List α, runFrom [] tokens = .ok final ∧ final.length = count) ↔
      Faultless α 0 tokens ∧ depth tokens = count := by
  constructor
  · rintro ⟨final, ran, rfl⟩
    have length := length_runFrom ran
    rw [List.length_nil] at length
    exact ⟨exists_runFrom_iff.mp ⟨final, ran⟩, by omega⟩
  · rintro ⟨faultless, height⟩
    obtain ⟨final, ran⟩ : ∃ final : List α, runFrom [] tokens = .ok final :=
      exists_runFrom_iff.mpr faultless
    have length := length_runFrom ran
    rw [List.length_nil] at length
    exact ⟨final, ran, by omega⟩

theorem exists_run_iff :
    (∃ x : α, run tokens = .ok x) ↔ Faultless α 0 tokens ∧ depth tokens = 1 := by
  rw [← Int.natCast_one, ← exists_runFrom_nil_iff]
  constructor
  · rintro ⟨x, ran⟩
    exact ⟨[x], run_eq_ok_iff.mp ran, rfl⟩
  · rintro ⟨final, ran, single⟩
    obtain ⟨x, rfl⟩ := List.length_eq_one_iff.mp single
    exact ⟨x, run_eq_ok_iff.mpr ran⟩

/-- The fault of a run comes from a token of its own, unless it counts what is left. -/
theorem exists_fault?_of_run (failed : (run tokens : Except Fault α) = .error fault) :
    (∃ token ∈ tokens, ∃ depth, token.fault? α depth = some fault) ∨
      ∃ count, fault = .valuesLeft count := by
  rcases run_eq_error_iff_runFrom.mp failed with on_way | ⟨final, _, _, left⟩
  · obtain ⟨front, token, rest, rfl, _, found⟩ := runFrom_eq_error_iff.mp on_way
    exact .inl ⟨token, by simp, _, found⟩
  · exact .inr ⟨_, left⟩

/-- A run fails if and only if some token cannot be run or the depth of the whole is not one. The
fault is that of the leftmost such token, whatever follows it; if there is none, it is the number of
values that are left, which is the depth of the whole, and zero only if there are no tokens. -/
theorem run_eq_error_iff (tokens : List Token) :
    ((∃ fault, (run tokens : Except Fault α) = .error fault) ↔
      ¬Faultless α 0 tokens ∨ depth tokens ≠ 1) ∧
    ∀ fault, (run tokens : Except Fault α) = .error fault ↔
      FirstFault α 0 tokens fault ∨
        Faultless α 0 tokens ∧ ∃ count : Nat, depth tokens = count ∧ count ≠ 1 ∧
          (count = 0 ↔ tokens = []) ∧ fault = .valuesLeft count := by
  constructor
  · -- what has no fault runs to a value
    refine Iff.trans ?_ Classical.not_and_iff_not_or_not
    rw [← exists_run_iff]
    cases (run tokens : Except Fault α) <;> simp
  · intro fault
    rw [run_eq_error_iff_runFrom]
    refine or_congr runFrom_eq_error_iff ⟨?_, ?_⟩
    · rintro ⟨final, ran, not_one, rfl⟩
      obtain ⟨faultless, height⟩ := exists_runFrom_nil_iff.mp ⟨final, ran, rfl⟩
      -- the number that is reported is zero only where the depth is
      have nothing := faultless.depth_eq_zero_iff
      rw [height, Int.natCast_eq_zero] at nothing
      exact ⟨faultless, final.length, height, not_one, nothing, rfl⟩
    · rintro ⟨faultless, count, height, not_one, _, rfl⟩
      obtain ⟨final, ran, rfl⟩ := exists_runFrom_nil_iff.mpr ⟨faultless, height⟩
      exact ⟨final, ran, not_one, rfl⟩

/-- The plus lacks an operand, whatever comes behind it. -/
example : (run [.literal ['1'], .operator (.binary .add), .opening, .literal ['.']] :
    Except Fault Double).mapError Fault.message =
      .error "malformed expression: missing operand for '+'" := by
  rfl

end Machine

end DeskCalculator
