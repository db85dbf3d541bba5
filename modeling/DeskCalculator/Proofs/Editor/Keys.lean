import DeskCalculator.Editor.Edit

/-!
# Typed lines

The edits that keys do are few: a key types a digit, a point, a binary operator, a parenthesis or a
root, or it does one of the edits without an argument. The lines that can be typed are those that
keys lead to from the empty one; often only some of the keys may be used, depending on the line.
-/
namespace DeskCalculator

/-- The characters that keys put in as they are. -/
def isInserted (c : Char) : Prop := c = '(' ∨ c = ')' ∨ c = '√'

/-- The edits that keys do. -/
inductive Edit.Keyed : Edit → Prop where
  | digit {c : Char} (digit : c.isDigit = true) : Keyed (.digit c)
  | point : Keyed (.digit '.')
  | inserted {c : Char} (inserted : isInserted c) : Keyed (.insert [c])
  | operator (op : BinaryOperator) : Keyed (.operator (.binary op))
  | backspace : Keyed .backspace
  | clear : Keyed .clear
  | left : Keyed .left
  | right : Keyed .right
  | commit : Keyed .commit

theorem Edit.keyed_of_ofChar? {key : Char} {edit : Edit} (does : ofChar? key = some edit) :
    edit.Keyed := by
  unfold ofChar? at does
  split at does
  · next figure =>
    cases does
    rcases figure with digit | rfl
    · exact .digit digit
    · exact .point
  split at does
  · next parenthesis =>
    cases does
    exact .inserted (parenthesis.imp_right .inl)
  split at does
  · cases does
    exact .inserted (.inr (.inr rfl))
  split at does
  · cases does
    exact .commit
  split at does
  · cases does
    exact .clear
  split at does
  · cases does
    exact .backspace
  split at does
  · cases does
    exact .left
  split at does
  · cases does
    exact .right
  · obtain ⟨op, _, rfl⟩ := Option.map_eq_some_iff.mp does
    exact .operator op

/-- The lines that keys lead to from the empty one, where `may` tells which edits they may do on a
line. -/
inductive Typed (may : Line → Edit → Prop) : Line → Prop where
  | empty : Typed may .empty
  | press {line : Line} {key : Char} {edit : Edit} (typed : Typed may line)
      (does : Edit.ofChar? key = some edit) (allowed : may line edit) :
      Typed may (line.apply edit).1

/-- What every allowed edit of a key keeps holds on all lines that can be typed. -/
theorem Typed.invariant {may : Line → Edit → Prop} (holds : Line → Prop) (start : holds .empty)
    (keeps : ∀ line edit, edit.Keyed → may line edit → holds line → holds (line.apply edit).1)
    {line : Line} (typed : Typed may line) : holds line := by
  induction typed with
  | empty => exact start
  | press _ does allowed ih => exact keeps _ _ (Edit.keyed_of_ofChar? does) allowed ih

/-- A text typed with keys that are allowed on every line leads from one typed line to another. -/
theorem Typed.typeText {may : Line → Edit → Prop} {line : Line} (typed : Typed may line)
    {text : List Char} (allowed : ∀ edit ∈ text.filterMap Edit.ofChar?, ∀ line, may line edit) :
    Typed may (line.typeText text).1 := by
  rw [Line.typeText]
  induction text generalizing line with
  | nil => exact typed
  | cons key text ih =>
    rw [List.filterMap_cons] at allowed ⊢
    cases does : Edit.ofChar? key with
    | none =>
      rw [does] at allowed
      exact ih typed allowed
    | some edit =>
      rw [does] at allowed
      have next := typed.press does (allowed edit List.mem_cons_self line)
      exact ih next fun later member => allowed later (List.mem_cons_of_mem edit member)

end DeskCalculator
