import DeskCalculator.Polish.Machine
import DeskCalculator.Polish.Order

/-!
# Parentheses

Reverse Polish order takes every sequence of tokens, whether its parentheses are balanced or not.
One that is not balanced is read as if the openings it lacks stood at its front and the closings it
lacks at its end.
-/
namespace DeskCalculator

/-- Whether every closing parenthesis has its opening before it and no parenthesis is left open,
where `opened` of them are open at the start. -/
def closesAll (opened : Nat) : List Token → Bool
  | [] => opened == 0
  | .opening :: rest => closesAll (opened + 1) rest
  | .closing :: rest =>
    match opened with
    | 0 => false
    | opened + 1 => closesAll opened rest
  | .literal _ :: rest | .operator _ :: rest => closesAll opened rest

def Balanced (tokens : List Token) : Prop := closesAll 0 tokens = true

instance (tokens : List Token) : Decidable (Balanced tokens) :=
  inferInstanceAs (Decidable (closesAll 0 tokens = true))

/-- How many closing parentheses come when none is open, where `opened` are open at the start. -/
def missingOpenings (opened : Nat) : List Token → Nat
  | [] => 0
  | .opening :: rest => missingOpenings (opened + 1) rest
  | .closing :: rest =>
    match opened with
    | 0 => missingOpenings 0 rest + 1
    | opened + 1 => missingOpenings opened rest
  | .literal _ :: rest | .operator _ :: rest => missingOpenings opened rest

/-- How many parentheses are still open at the end, where `opened` are open at the start. -/
def missingClosings (opened : Nat) : List Token → Nat
  | [] => opened
  | .opening :: rest => missingClosings (opened + 1) rest
  | .closing :: rest => missingClosings (opened - 1) rest
  | .literal _ :: rest | .operator _ :: rest => missingClosings opened rest

/-- The tokens between so many opening and so many closing parentheses. -/
def surround (openings : Nat) (tokens : List Token) (closings : Nat) : List Token :=
  List.replicate openings .opening ++ (tokens ++ List.replicate closings .closing)

/-- The tokens with the parentheses they lack. -/
def complete (tokens : List Token) : List Token :=
  surround (missingOpenings 0 tokens) tokens (missingClosings 0 tokens)

/-! ## Balance -/

theorem closesAll_openings (opened count : Nat) (tokens : List Token) :
    closesAll opened (List.replicate count .opening ++ tokens) =
      closesAll (opened + count) tokens := by
  induction count generalizing opened with
  | zero => rfl
  | succ count ih =>
    rw [List.replicate_succ, List.cons_append, closesAll, ih]
    congr 1
    omega

theorem closesAll_closings (opened count : Nat) :
    closesAll opened (List.replicate count .closing) = true ↔ opened = count := by
  induction count generalizing opened with
  | zero => simp [closesAll]
  | succ count ih =>
    cases opened with
    | zero => simp [List.replicate_succ, closesAll]
    | succ opened => simp [List.replicate_succ, closesAll, ih]

/-- Parentheses opened beforehand, besides the `opened` ones that the tokens reckon with, must make
up for the missing openings; what is then open is closed at the end. -/
theorem closesAll_append_closings_iff (opened more closings : Nat) (tokens : List Token) :
    closesAll (opened + more) (tokens ++ List.replicate closings .closing) = true ↔
      missingOpenings opened tokens ≤ more ∧
        closings + missingOpenings opened tokens = missingClosings opened tokens + more := by
  induction tokens generalizing opened more with
  | nil =>
    rw [List.nil_append, closesAll_closings, missingOpenings, missingClosings]
    omega
  | cons token rest ih =>
    cases token with
    | literal text => exact ih opened more
    | operator op => exact ih opened more
    | opening =>
      have inside := ih (opened + 1) more
      rwa [Nat.add_right_comm] at inside
    | closing =>
      cases opened with
      | succ opened =>
        have outside := ih opened more
        rwa [Nat.add_right_comm opened 1 more]
      | zero =>
        -- this closing has its partner among the openings beforehand, if there is one left
        cases more with
        | zero => simp [closesAll, missingOpenings]
        | succ more =>
          have outside := ih 0 more
          rw [Nat.zero_add] at outside ⊢
          simp only [List.cons_append, closesAll, missingOpenings, missingClosings, outside,
            Nat.zero_sub]
          omega

/-- The sequences that balance the tokens are those with the missing parentheses and as many pairs
around them as one likes. -/
theorem balanced_surround_iff (openings closings : Nat) (tokens : List Token) :
    Balanced (surround openings tokens closings) ↔
      ∃ pairs, openings = missingOpenings 0 tokens + pairs ∧
        closings = missingClosings 0 tokens + pairs := by
  rw [Balanced, surround, closesAll_openings, closesAll_append_closings_iff]
  constructor
  · rintro ⟨enough, closed⟩
    exact ⟨openings - missingOpenings 0 tokens, by omega, by omega⟩
  · rintro ⟨pairs, rfl, rfl⟩
    omega

theorem balanced_complete (tokens : List Token) : Balanced (complete tokens) :=
  (balanced_surround_iff _ _ tokens).mpr ⟨0, rfl, rfl⟩

/-! ## Reverse Polish order -/

/-- Levels without waiting operators below all others make no difference: a closing parenthesis
that ends such a level releases what one without a partner would. -/
theorem polishFrom_append_levels (waiting : List Operator) (outer : List (List Operator))
    (count : Nat) (tokens : List Token) :
    polishFrom waiting (outer ++ List.replicate count []) tokens =
      polishFrom waiting outer tokens := by
  induction tokens generalizing waiting outer count with
  | nil => simp [polishFrom]
  | cons token rest ih =>
    cases token with
    | literal text => simp only [polishFrom, ih]
    | operator op => simp only [polishFrom, ih]
    | opening => exact ih [] (waiting :: outer) count
    | closing =>
      cases outer with
      | cons level outer =>
        simp only [polishFrom, List.cons_append, List.headD_cons, List.tail_cons, ih]
      | nil =>
        -- either one of the levels below ends, or no level is left
        cases count with
        | zero => rfl
        | succ count =>
          have level := ih [] [] count
          simp only [List.nil_append] at level
          simp [polishFrom, List.replicate_succ, level]

theorem polishFrom_openings (outer : List (List Operator)) (count : Nat) (tokens : List Token) :
    polishFrom [] outer (List.replicate count .opening ++ tokens) =
      polishFrom [] (List.replicate count [] ++ outer) tokens := by
  induction count generalizing outer with
  | zero => rfl
  | succ count ih =>
    rw [List.replicate_succ, List.cons_append, polishFrom, ih, List.replicate_succ',
      List.append_assoc, List.singleton_append]

/-- Closing parentheses at the end release only what the end would release anyway. -/
theorem polishFrom_closings (waiting : List Operator) (outer : List (List Operator))
    (count : Nat) :
    polishFrom waiting outer (List.replicate count .closing) = polishFrom waiting outer [] := by
  induction count generalizing waiting outer with
  | zero => rfl
  | succ count ih => cases outer <;> simp [List.replicate_succ, polishFrom, ih]

theorem polishFrom_append_closings (waiting : List Operator) (outer : List (List Operator))
    (count : Nat) (tokens : List Token) :
    polishFrom waiting outer (tokens ++ List.replicate count .closing) =
      polishFrom waiting outer tokens := by
  induction tokens generalizing waiting outer with
  | nil => exact polishFrom_closings waiting outer count
  | cons token rest ih => cases token <;> simp only [List.cons_append, polishFrom, ih]

theorem polish_surround (openings : Nat) (tokens : List Token) (closings : Nat) :
    polish (surround openings tokens closings) = polish tokens := by
  have levels := polishFrom_append_levels [] [] openings
    (tokens ++ List.replicate closings .closing)
  rw [List.nil_append] at levels
  rw [polish, surround, polishFrom_openings, List.append_nil, levels, polishFrom_append_closings,
    polish]

/-- Inside the levels that the tokens open themselves, nothing of what waits around them comes out
before the parenthesis that closes them. -/
theorem polishFrom_append_closing (waiting : List Operator) (inner outer : List (List Operator))
    {tokens : List Token} (closes : closesAll inner.length tokens = true) (rest : List Token) :
    polishFrom waiting (inner ++ outer) (tokens ++ .closing :: rest) =
      polishFrom waiting inner tokens ++ polishFrom (outer.headD []) outer.tail rest := by
  induction tokens generalizing waiting inner with
  | nil =>
    have none_left : inner = [] := List.eq_nil_of_length_eq_zero (by simpa [closesAll] using closes)
    subst none_left
    simp [polishFrom]
  | cons token tokens ih =>
    cases token with
    | literal text => simp only [List.cons_append, polishFrom, ih _ inner closes]
    | operator op => simp only [List.cons_append, polishFrom, ih _ inner closes, List.append_assoc]
    | opening => exact ih [] (waiting :: inner) closes
    | closing =>
      cases inner with
      | nil => cases closes
      | cons level inner =>
        have outside := ih level inner closes
        simp only [List.cons_append, polishFrom, List.headD_cons, List.tail_cons, outside,
          List.append_assoc]

/-- Balanced tokens in parentheses come out as they do alone, and what waits before the opening
parenthesis waits on behind the closing one. -/
theorem polishFrom_enclosed {tokens : List Token} (balanced : Balanced tokens)
    (waiting : List Operator) (outer : List (List Operator)) (rest : List Token) :
    polishFrom waiting outer (.opening :: (tokens ++ .closing :: rest)) =
      polish tokens ++ polishFrom waiting outer rest :=
  polishFrom_append_closing [] [] (waiting :: outer) balanced rest

/-- Parentheses around a sequence of tokens do not change its reverse Polish order, balanced or not.
So a sequence that is not balanced is ordered, and runs, as the one with the parentheses it
lacks. -/
theorem polish_complete (tokens : List Token) :
    (∀ openings closings, polish (surround openings tokens closings) = polish tokens) ∧
      Balanced (complete tokens) ∧ polish (complete tokens) = polish tokens ∧
      ∀ (α : Type) [Arithmetic α],
        (Machine.run (polish (complete tokens)) : Except Fault α) =
          Machine.run (polish tokens) := by
  have same : polish (complete tokens) = polish tokens := polish_surround _ tokens _
  refine ⟨fun openings closings => polish_surround openings tokens closings,
    balanced_complete tokens, same, fun α _ => ?_⟩
  rw [same]

/-- `1)*(2` lacks a parenthesis at either end. -/
example : complete [.literal ['1'], .closing, .operator (.binary .mul), .opening, .literal ['2']] =
    [.opening, .literal ['1'], .closing, .operator (.binary .mul),
      .opening, .literal ['2'], .closing] := by
  decide

end DeskCalculator
