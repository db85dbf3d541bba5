import DeskCalculator.Proofs.Editor.Commit
import DeskCalculator.Proofs.Editor.Edit
import DeskCalculator.Proofs.Editor.Keys

/-!
# The result shown is up to date

Beside the text there is always either its live preview, or the result of a commit after which
nothing has been changed. In the latter case the text, the cursor and the result still fit together
as the commit left them. The next edit brings the preview back, unless the line refuses it.
-/
namespace DeskCalculator

open Display

namespace Line

/-- How a line looks while the result of a commit is shown: it holds that result, or nothing because
the result is no finite number, or the text that has no value. -/
inductive Settled (line : Line) : Prop where
  | number (shown : line.result = line.text) (some_text : line.text ≠ [])
    (at_end : line.cursor = line.length)
  | label (no_text : line.text = []) (at_start : line.cursor = 0)
    (shown : isSentinel line.result = true)
  | fault (shown : line.result = error) (some_text : line.text ≠ [])
    (no_value : ∃ fault, evaluate line.text = .error fault)

/-- The result shown belongs to the text: it is the live preview, or that of a commit that has left
the line as it is now. -/
inductive UpToDate (line : Line) : Prop where
  | editing (mode : line.committed = none) (shown : line.result = preview line.text)
  | committed (mode : line.committed ≠ none) (settled : line.Settled)

variable {line : Line}

theorem upToDate_of_editing (mode : line.committed = none) : line.UpToDate :=
  .editing mode (by rw [result, mode, Option.getD_none])

theorem committed_settle (line : Line) (evaluation : Evaluation) :
    (line.settle evaluation).committed = some evaluation.display := by
  unfold settle
  split <;> rfl

theorem result_settle (line : Line) (evaluation : Evaluation) :
    (line.settle evaluation).result = evaluation.display := by
  rw [result, committed_settle, Option.getD_some]

/-- Whatever the text evaluates to, the line that is left fits the result shown. -/
theorem settled_settle (some_text : line.text ≠ []) :
    (line.settle (evaluate line.text)).Settled := by
  have shown := result_settle line (evaluate line.text)
  cases value : evaluate line.text with
  | error fault =>
    rw [value] at shown
    exact .fault shown some_text ⟨fault, value⟩
  | ok x =>
    rw [value] at shown
    cases x with
    | nan =>
      refine .label rfl rfl ?_
      rw [shown]
      decide
    | infinite negative =>
      refine .label rfl rfl ?_
      rw [shown]
      cases negative <;> decide
    | finite x =>
      rw [settle_finite] at shown ⊢
      refine .number (shown.trans (text_ofResult x).symm) ?_ ?_
      · rw [text_ofResult]
        exact number_ne_nil x
      · simp [ofResult, ofText, cursor, length]

theorem upToDate_commit (fresh : line.UpToDate) : line.commit.1.UpToDate := by
  rw [commit]
  split
  · -- an empty line is left as it is, with the label it may show
    exact fresh
  · next some_text =>
    have mode : (line.settle (evaluate line.text)).committed ≠ none := by
      rw [committed_settle]
      exact Option.some_ne_none _
    exact .committed mode (settled_settle some_text)

theorem upToDate_apply (edit : Edit) (fresh : line.UpToDate) : (line.apply edit).1.UpToDate := by
  by_cases commits : edit = .commit
  · subst commits
    exact upToDate_commit fresh
  · by_cases refuses : line.Refuses edit
    · rw [apply_of_refuses refuses]
      exact fresh
    · exact upToDate_of_editing (committed_apply refuses commits)

/-- The result shown is up to date after any edits, on an empty line as on one with a text. -/
theorem upToDate_applyAll (text : List Char) (edits : List Edit) :
    (empty.applyAll edits).1.UpToDate ∧ ((ofText text).applyAll edits).1.UpToDate := by
  have keeps (line : Line) (edit : Edit) (fresh : line.UpToDate) := upToDate_apply edit fresh
  exact ⟨applyAll_keeps keeps (upToDate_of_editing rfl) edits,
    applyAll_keeps keeps (upToDate_of_editing rfl) edits⟩

/-! ## The next edit -/

/-- An edit that is refused changes nothing, so that the result of a commit is still shown. After
any other edit but a commit the live preview is shown. -/
theorem result_apply {edit : Edit} (no_commit : edit ≠ .commit) :
    (line.Refuses edit → line.apply edit = (line, none)) ∧
      (¬line.Refuses edit → (line.apply edit).1.committed = none ∧
        (line.apply edit).1.result = preview (line.apply edit).1.text) := by
  refine ⟨apply_of_refuses, fun accepts => ?_⟩
  have mode := committed_apply accepts no_commit
  exact ⟨mode, by rw [result, mode, Option.getD_none]⟩

/-- Beside an infinity a plus is refused, as the line is empty, and a digit is not. -/
theorem result_apply_infinity :
    let line := (empty.typeText "1/0=".toList).1
    let plus := Edit.operator (.binary .add)
    let seven := Edit.digit '7'
    line.Refuses plus ∧ ¬line.Refuses seven ∧ line.result = infinity ∧
      line.apply plus = (line, none) ∧ (line.apply seven).1.committed = none ∧
      (line.apply seven).1.result = preview "7".toList := by
  intro line plus seven
  have shape : line = ⟨[], [], some infinity⟩ := by decide +kernel
  have refuses : line.Refuses plus := .operator (by rw [shape]) (by decide)
  have accepts : ¬line.Refuses seven := by
    intro refused
    have same := apply_of_refuses refused
    rw [shape] at same
    exact absurd same (by decide)
  have no_commit : seven ≠ .commit := by decide
  obtain ⟨mode, shown⟩ := (result_apply no_commit).2 accepts
  have text : (line.apply seven).1.text = "7".toList := by
    rw [shape]
    decide
  rw [text] at shown
  exact ⟨refuses, accepts, by rw [shape]; rfl,
    (result_apply (by decide)).1 refuses, mode, shown⟩

end Line

/-- A key that is refused leaves the result of a commit shown. -/
theorem exists_result_kept :
    ∃ line, Typed (fun _ _ => True) line ∧ line.committed ≠ none ∧
      ∃ key edit, Edit.ofChar? key = some edit ∧ edit ≠ .commit ∧
        (line.apply edit).1.committed ≠ none ∧
        (line.apply edit).1.result ≠ preview (line.apply edit).1.text := by
  let line := (Line.empty.typeText "1/0=".toList).1
  have shape : line = ⟨[], [], some infinity⟩ := by decide +kernel
  refine ⟨line, Typed.empty.typeText fun _ _ _ => trivial, ?_, '+', .operator (.binary .add), rfl,
    by decide, ?_⟩
  · simp [shape]
  · rw [shape]
    exact ⟨by decide, by decide +kernel⟩

end DeskCalculator
