import DeskCalculator.Proofs.Editor.UpToDate
import DeskCalculator.Proofs.Session.Requests
import DeskCalculator.Proofs.Trimming

/-!
# What may be copied

Whether a result is a number, a label or an error is decided on its evaluation when it is made, and
on its text when it is to be copied. The two agree: in a session there is nothing to copy exactly
where the evaluation behind the result shown has failed or has given no finite number.
-/
namespace DeskCalculator

/-! ## Evaluations and their texts -/

namespace Evaluation

/-- Whether the evaluation has come to a finite number. -/
def isNumber : Evaluation → Bool
  | .ok x => x.isFinite
  | .error _ => false

variable (evaluation : Evaluation)

theorem display_eq_error_iff :
    evaluation.display = Display.error ↔ ∃ fault, evaluation = .error fault := by
  cases evaluation with
  | ok x => simp [display, x.display_ne_error]
  | error fault => simp [display]

theorem isSentinel_display_iff :
    Display.isSentinel evaluation.display = true ↔
      ∃ x, evaluation = .ok x ∧ x.isFinite = false := by
  cases evaluation with
  | ok x => simp [display, x.isSentinel_display]
  | error fault =>
    have no_label : Display.isSentinel Display.error = false := by decide
    simp [display, no_label]

theorem copyable?_eq_none_iff : evaluation.copyable? = none ↔ evaluation.isNumber = false := by
  cases evaluation with
  | ok x => cases x <;> simp [copyable?, isNumber, Double.isFinite]
  | error fault => simp [copyable?, isNumber]

/-- A value has a label exactly if it may not be copied and is no error. -/
theorem isSentinel_display_iff_copyable? :
    Display.isSentinel evaluation.display = true ↔
      evaluation.copyable? = none ∧ evaluation.display ≠ Display.error := by
  rw [isSentinel_display_iff, copyable?_eq_none_iff, ne_eq, display_eq_error_iff]
  cases evaluation <;> simp [isNumber]

theorem isNumber_eq_false_iff :
    evaluation.isNumber = false ↔
      (∃ fault, evaluation = .error fault) ∨ ∃ x, evaluation = .ok x ∧ x.isFinite = false := by
  cases evaluation <;> simp [isNumber]

end Evaluation

namespace Line

variable {line : Line}

/-! ## The evaluation behind a result -/

/-- The evaluation that an edit comes to, if it is a commit of some text. -/
def evaluation? (line : Line) (edit : Edit) : Option Evaluation :=
  if edit = .commit ∧ line.text ≠ [] then some (evaluate line.text) else none

/-- The evaluations that the commits among edits come to, in order. -/
def evaluations (line : Line) : List Edit → List Evaluation
  | [] => []
  | edit :: rest => (line.evaluation? edit).toList ++ (line.apply edit).1.evaluations rest

/-- The evaluation that the result shown comes from, where `made` are those of the commits so far:
the last of them while its result is shown, otherwise that of the preview. -/
def behind (line : Line) (made : List Evaluation) : Evaluation :=
  match line.committed, made.getLast? with
  | some _, some last => last
  | _, _ => evaluate (trimDangling line.text)

/-- The result of a commit that is still shown is that of the last one. -/
def Recalls (line : Line) (made : List Evaluation) : Prop :=
  ∀ shown, line.committed = some shown → ∃ last, made.getLast? = some last ∧ last.display = shown

theorem recalls_of_editing (mode : line.committed = none) (made : List Evaluation) :
    line.Recalls made := by
  intro shown committed
  rw [mode] at committed
  cases committed

theorem Recalls.apply {made : List Evaluation} (recalls : line.Recalls made) (edit : Edit) :
    (line.apply edit).1.Recalls (made ++ (line.evaluation? edit).toList) := by
  by_cases commits : edit = .commit
  · subst commits
    by_cases no_text : line.text = []
    · -- without a text nothing is evaluated, and what is shown stays
      simpa [Line.apply, commit, evaluation?, no_text] using recalls
    · intro shown committed
      rw [Line.apply, commit_of_text no_text, committed_settle] at committed
      exact ⟨evaluate line.text, by simp [evaluation?, no_text], Option.some.inj committed⟩
  · by_cases refuses : line.Refuses edit
    · simpa [apply_of_refuses refuses, evaluation?, commits] using recalls
    · exact recalls_of_editing (committed_apply refuses commits) _

theorem Recalls.applyAll {made : List Evaluation} (recalls : line.Recalls made)
    (edits : List Edit) : (line.applyAll edits).1.Recalls (made ++ line.evaluations edits) := by
  induction edits generalizing line made with
  | nil => simpa [Line.applyAll, evaluations] using recalls
  | cons edit edits ih =>
    rw [applyAll_cons, evaluations, ← List.append_assoc]
    exact ih (recalls.apply edit)

/-! ## Whether a number is shown -/

theorem hasNumber_of_display {evaluation : Evaluation} (shown : line.result = evaluation.display) :
    line.hasNumber = evaluation.isNumber := by
  rw [hasNumber, shown]
  cases evaluation with
  | ok x => simp [Evaluation.display, Evaluation.isNumber, x.display_ne_nil, x.display_ne_error,
      x.isSentinel_display]
  | error fault => simp [Evaluation.display, Evaluation.isNumber]

theorem hasNumber_of_editing (mode : line.committed = none) :
    line.hasNumber = (evaluate (trimDangling line.text)).isNumber := by
  have shown : line.result = preview line.text := by rw [result, mode, Option.getD_none]
  rw [preview_eq] at shown
  cases value : evaluate (trimDangling line.text) with
  | ok x =>
    rw [value] at shown
    exact hasNumber_of_display shown
  | error fault =>
    rw [value] at shown
    simp [hasNumber, shown, Evaluation.isNumber]

/-- A number is shown exactly where the evaluation behind the result has come to one. -/
theorem Recalls.hasNumber_eq {made : List Evaluation} (recalls : line.Recalls made) :
    line.hasNumber = (line.behind made).isNumber := by
  cases mode : line.committed with
  | none =>
    rw [hasNumber_of_editing mode, behind, mode]
  | some shown =>
    obtain ⟨last, is_last, display⟩ := recalls shown mode
    have result : line.result = last.display := by rw [result, mode, Option.getD_some, display]
    rw [hasNumber_of_display result, behind, mode, is_last]

/-! ## Sessions -/

theorem lines_copy_eq_iff (line : Line) (clipboard : Clipboard) (showPreview : Bool) :
    (line.respond .copy).2.lines clipboard showPreview = ["nothing to copy".toList] ↔
      line.hasNumber = false := by
  cases numeric : line.hasNumber with
  | false =>
    have reply : (line.respond .copy).2 = .nothingToCopy := by simp [respond, numeric]
    rw [reply]
    exact iff_of_true rfl rfl
  | true =>
    have reply : (line.respond .copy).2 = .copy line.result := by simp [respond, numeric]
    obtain ⟨said, lines, first⟩ := Reply.exists_lines_copy clipboard showPreview line.result
    rw [reply, lines]
    refine iff_of_false (fun same => ?_) (by decide)
    rw [List.singleton_inj.mp same] at first
    exact absurd first (by decide)

end Line

/-- The text of a value is never that of an error nor empty, and it is a label exactly for a value
that is no finite number. So the result of a commit is an error exactly if the evaluation fails, and
a label exactly if the value is no finite number, which is where there is nothing to copy and no
error. In a session, whatever the clipboard does, there is nothing to copy exactly if the evaluation
behind the result shown has failed or has come to no finite number. -/
theorem kinds_of_results :
    (∀ x : Double, x.display ≠ Display.error ∧ x.display ≠ [] ∧
      (Display.isSentinel x.display = true ↔ x.isFinite = false)) ∧
    (∀ line : Line, line.text ≠ [] → ∃ next outcome, line.commit = (next, some outcome) ∧
      (outcome.result = Display.error ↔ ∃ fault, evaluate line.text = .error fault) ∧
      (Display.isSentinel outcome.result = true ↔
        ∃ x, evaluate line.text = .ok x ∧ x.isFinite = false) ∧
      (Display.isSentinel outcome.result = true ↔
        outcome.copyable = none ∧ outcome.result ≠ Display.error)) ∧
    ∀ (requests : List Request) (clipboard : Clipboard) (showPreview : Bool),
      let line := Line.empty.respondAll requests
      let made := Line.empty.evaluations (requests.flatMap Request.edits)
      (line.respond .copy).2.lines clipboard showPreview = ["nothing to copy".toList] ↔
        (∃ fault, line.behind made = .error fault) ∨
          ∃ x, line.behind made = .ok x ∧ x.isFinite = false := by
  refine ⟨fun x => ⟨x.display_ne_error, x.display_ne_nil, ?_⟩, fun line some_text => ?_,
    fun requests clipboard showPreview => ?_⟩
  · rw [x.isSentinel_display, Bool.not_eq_true']
  · exact ⟨_, _, Line.commit_of_text some_text, Evaluation.display_eq_error_iff _,
      Evaluation.isSentinel_display_iff _, Evaluation.isSentinel_display_iff_copyable? _⟩
  · have start : Line.empty.Recalls [] := Line.recalls_of_editing rfl []
    have recalls := start.applyAll (requests.flatMap Request.edits)
    rw [← Line.respondAll_eq_applyAll, List.nil_append] at recalls
    dsimp only
    rw [Line.lines_copy_eq_iff, recalls.hasNumber_eq, Evaluation.isNumber_eq_false_iff]

/-- A commit of an infinity shows a label, and in a session there is nothing to copy after it. -/
theorem kinds_of_results_infinity :
    (Line.ofText "1/0".toList).text ≠ [] ∧
      (∃ next outcome, (Line.ofText "1/0".toList).commit = (next, some outcome) ∧
        Display.isSentinel outcome.result = true ∧ outcome.copyable = none) ∧
      ((Line.empty.respondAll [.type "1/0=".toList]).respond .copy).2.lines .unreachable true =
        ["nothing to copy".toList] := by
  have some_text : (Line.ofText "1/0".toList).text ≠ [] := by decide
  have value : evaluate (Line.ofText "1/0".toList).text = .ok (.infinite false) := by
    decide +kernel
  obtain ⟨next, outcome, commit, -, label, copyable⟩ :=
    kinds_of_results.2.1 (Line.ofText "1/0".toList) some_text
  have shown := label.mpr ⟨_, value, rfl⟩
  refine ⟨some_text, ⟨next, outcome, commit, shown, (copyable.mp shown).1⟩, ?_⟩
  refine (kinds_of_results.2.2 [.type "1/0=".toList] .unreachable true).mpr
    (.inr ⟨.infinite false, ?_, rfl⟩)
  decide +kernel

end DeskCalculator
