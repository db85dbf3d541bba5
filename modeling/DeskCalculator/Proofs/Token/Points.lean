import DeskCalculator.Proofs.Token.Scan

/-!
# Points in a run of digits

Scanning fails only at a literal with two points. So a text is scanned to its end if none of its
runs of digits and points holds more than one. Where two pieces of a text meet, the runs on both
sides of the seam become one, and their points add up.
-/
namespace DeskCalculator

/-- The points in the run of digits and points that a text starts with. -/
def pointsAtStart (text : List Char) : Nat := (text.takeWhile isRunChar).count '.'

/-- Whether no run of digits and points in a text holds more than one point. -/
def SinglePointed (text : List Char) : Prop := ∀ rest, rest <:+ text → pointsAtStart rest ≤ 1

variable {c : Char} {text front back rest : List Char}

@[simp] theorem pointsAtStart_nil : pointsAtStart [] = 0 := rfl

theorem pointsAtStart_cons_of_stop (stop : isRunChar c = false) (rest : List Char) :
    pointsAtStart (c :: rest) = 0 := by
  simp [pointsAtStart, stop]

theorem pointsAtStart_cons_of_run (run : isRunChar c = true) (rest : List Char) :
    pointsAtStart (c :: rest) = [c].count '.' + pointsAtStart rest := by
  rw [pointsAtStart, List.takeWhile_cons_of_pos run, ← List.singleton_append, List.count_append,
    pointsAtStart]

theorem pointsAtStart_le_count (text : List Char) : pointsAtStart text ≤ text.count '.' :=
  (List.takeWhile_sublist isRunChar).count_le '.'

/-! ## Runs with one point -/

@[simp] theorem singlePointed_nil : SinglePointed [] := by
  intro rest suffix
  rw [List.suffix_nil.mp suffix]
  exact Nat.zero_le 1

theorem singlePointed_cons_iff :
    SinglePointed (c :: rest) ↔ pointsAtStart (c :: rest) ≤ 1 ∧ SinglePointed rest := by
  simp only [SinglePointed, List.suffix_cons_iff, forall_eq_or_imp]

theorem singlePointed_of_count_le (points : text.count '.' ≤ 1) : SinglePointed text :=
  fun rest suffix => Nat.le_trans (pointsAtStart_le_count rest)
    (Nat.le_trans (suffix.sublist.count_le '.') points)

namespace SinglePointed

theorem pointsAtStart_le (single : SinglePointed text) : pointsAtStart text ≤ 1 :=
  single text (List.suffix_refl text)

theorem of_isSuffix (single : SinglePointed text) (suffix : rest <:+ text) : SinglePointed rest :=
  fun end_ inner => single end_ (inner.trans suffix)

end SinglePointed

theorem singlePointed_cons_of_stop (stop : isRunChar c = false) :
    SinglePointed (c :: rest) ↔ SinglePointed rest := by
  simp [singlePointed_cons_iff, pointsAtStart_cons_of_stop stop]

/-- At a seam the run before it, read backwards, and the run behind it share one point at most. -/
theorem singlePointed_reverse_append_iff :
    SinglePointed (front.reverse ++ back) ↔ SinglePointed front ∧ SinglePointed back ∧
      pointsAtStart front + pointsAtStart back ≤ 1 := by
  induction front generalizing back with
  | nil =>
    simp only [List.reverse_nil, List.nil_append, singlePointed_nil, pointsAtStart_nil,
      Nat.zero_add, true_and]
    exact ⟨fun single => ⟨single, single.pointsAtStart_le⟩, And.left⟩
  | cons c front ih =>
    -- move the seam to the other side of the character
    rw [List.reverse_cons, List.append_assoc, List.singleton_append, ih, singlePointed_cons_iff,
      singlePointed_cons_iff]
    have before (single : SinglePointed front) := single.pointsAtStart_le
    have behind (single : SinglePointed back) := single.pointsAtStart_le
    cases run : isRunChar c with
    | false =>
      simp only [pointsAtStart_cons_of_stop run]
      grind
    | true =>
      simp only [pointsAtStart_cons_of_run run]
      grind

theorem singlePointed_reverse_iff : SinglePointed text.reverse ↔ SinglePointed text := by
  have seam : SinglePointed (text.reverse ++ []) ↔ _ := singlePointed_reverse_append_iff
  rw [List.append_nil] at seam
  refine seam.trans ⟨And.left, fun single => ⟨single, singlePointed_nil, ?_⟩⟩
  exact single.pointsAtStart_le

theorem SinglePointed.of_append (single : SinglePointed (front ++ back)) : SinglePointed front := by
  rw [← List.reverse_reverse front, singlePointed_reverse_append_iff] at single
  exact singlePointed_reverse_iff.mp single.1

/-! ## Scanning -/

theorem exists_literalAt (single : SinglePointed text) (sign : List Char) :
    ∃ token, literalAt sign text = .ok token :=
  ⟨_, if_pos single.pointsAtStart_le⟩

/-- A text without a second point in any run of digits has tokens. -/
theorem exists_scanFrom (operandExpected : Bool) (single : SinglePointed text) :
    ∃ tokens, scanFrom operandExpected text = .ok tokens := by
  -- the cases of the scanner: the end, a literal, a signed literal, a token, a skipped character
  induction operandExpected, text using scanFrom.induct with
  | case1 operandExpected => exact ⟨[], by rw [scanFrom]⟩
  | case2 operandExpected c rest run ih =>
    obtain ⟨token, literal⟩ := exists_literalAt single []
    have inner := single.of_isSuffix (List.suffix_cons c rest)
    obtain ⟨tokens, behind⟩ := ih (inner.of_isSuffix (afterLiteral_isSuffix rest))
    refine ⟨token :: tokens, ?_⟩
    rw [scanFrom, if_pos run, literal, behind]
    rfl
  | case3 operandExpected c rest run signed ih =>
    have inner := single.of_isSuffix (List.suffix_cons c rest)
    obtain ⟨token, literal⟩ := exists_literalAt inner ['-']
    obtain ⟨tokens, behind⟩ := ih (inner.of_isSuffix (afterLiteral_isSuffix rest))
    refine ⟨token :: tokens, ?_⟩
    rw [scanFrom, if_neg run, if_pos signed, literal, behind]
    rfl
  | case4 operandExpected c rest run signed token written ih =>
    obtain ⟨tokens, behind⟩ := ih (single.of_isSuffix (List.suffix_cons c rest))
    refine ⟨token :: tokens, ?_⟩
    rw [scanFrom, if_neg run, if_neg signed]
    simp only [written, behind]
    rfl
  | case5 operandExpected c rest run signed skipped ih =>
    obtain ⟨tokens, behind⟩ := ih (single.of_isSuffix (List.suffix_cons c rest))
    refine ⟨tokens, ?_⟩
    rw [scanFrom, if_neg run, if_neg signed]
    simp only [skipped, behind]

end DeskCalculator
