import DeskCalculator.Proofs.Editor.Characters
import DeskCalculator.Proofs.Session.Requests
import DeskCalculator.Session

/-!
# The course of a session

A session answers a line of input and goes on with the lines that are left, until there is none, the
next one is no text, or it says to quit. So a session over many lines of input is one over the first
of them and, unless that has ended, another over the others, which starts with the line of the
calculator as the first has left it.
-/
namespace DeskCalculator

theorem Transcript.followedBy_assoc (first second third : Transcript) :
    (first.followedBy second).followedBy third = first.followedBy (second.followedBy third) := by
  simp only [followedBy, List.append_assoc]

namespace Session

variable {clipboard : Clipboard} {settings : Settings} {interactive : Bool} {line : Line}
  {text : List Char} {inputs front back rest : List (Option (List Char))}

/-! ## A step -/

/-- Of the lines of input that are left none is answered. -/
def Ends (inputs : List (Option (List Char))) : Prop :=
  ∀ text rest, inputs = some text :: rest → Quits text

theorem ends_nil : Ends [] := nofun

theorem ends_unreadable (rest : List (Option (List Char))) : Ends (none :: rest) := nofun

theorem ends_of_quits (quits : Quits text) (rest : List (Option (List Char))) :
    Ends (some text :: rest) := by
  rintro _ _ ⟨⟩
  exact quits

theorem Ends.append (ends : Ends front) (some_input : front ≠ [])
    (back : List (Option (List Char))) : Ends (front ++ back) := by
  obtain ⟨input, front, rfl⟩ := List.exists_cons_of_ne_nil some_input
  rintro text rest ⟨⟩
  exact ends text front rfl

theorem step_of_quits (quits : Quits text) :
    step clipboard settings interactive line (some text) = ⟨⟨[], line, [], true⟩, false⟩ :=
  if_pos (Request.ofLine_eq_quit_iff.mpr quits)

theorem step_of_not_quits (goes_on : ¬Quits text) :
    step clipboard settings interactive line (some text) =
      ⟨answer clipboard settings interactive line (Request.ofLine text), true⟩ :=
  if_neg fun quit => goes_on (Request.ofLine_eq_quit_iff.mp quit)

theorem answers_of_ends (ends : Ends inputs) :
    answers clipboard settings interactive line inputs =
      ⟨[], line, [], decide (inputs.head? ≠ some none)⟩ := by
  match inputs with
  | [] | none :: _ => rfl
  | some text :: rest =>
    rw [answers, step_of_quits (ends text rest rfl)]
    rfl

theorem answers_cons (goes_on : ¬Quits text) (rest : List (Option (List Char))) :
    answers clipboard settings interactive line (some text :: rest) =
      (answer clipboard settings interactive line (Request.ofLine text)).followedBy
        (answers clipboard settings interactive (line.respond (Request.ofLine text)).1 rest) := by
  rw [answers, step_of_not_quits goes_on]
  rfl

/-! ## Runs -/

/-- What holds where a session ends, and before a line of input if it holds behind the answer to it,
holds of all sessions. -/
theorem induction_on {holds : Line → List (Option (List Char)) → Prop}
    (ended : ∀ line inputs, Ends inputs → holds line inputs)
    (answered : ∀ line text rest, ¬Quits text →
      holds (line.respond (Request.ofLine text)).1 rest → holds line (some text :: rest))
    (line : Line) (inputs : List (Option (List Char))) : holds line inputs := by
  induction inputs generalizing line with
  | nil => exact ended line [] ends_nil
  | cons input rest ih =>
    cases input with
    | none => exact ended line _ (ends_unreadable rest)
    | some text =>
      by_cases quits : Quits text
      · exact ended line _ (ends_of_quits quits rest)
      · exact answered line text rest quits (ih _)

/-- What every request keeps, a session keeps. -/
theorem answers_keeps {holds : Line → Prop}
    (keeps : ∀ line request, holds line → holds (line.respond request).1) (start : holds line)
    (clipboard : Clipboard) (settings : Settings) (interactive : Bool)
    (inputs : List (Option (List Char))) :
    holds (answers clipboard settings interactive line inputs).line := by
  induction line, inputs using induction_on with
  | ended line inputs ends =>
    rw [answers_of_ends ends]
    exact start
  | answered line text rest goes_on ih =>
    rw [answers_cons goes_on]
    exact ih (keeps line _ start)

/-- The line of the calculator after a session, and whether all was read, hang neither on the
settings nor on the clipboard. -/
theorem answers_congr (clipboard clipboard' : Clipboard) (settings settings' : Settings)
    (interactive interactive' : Bool) (line : Line) (inputs : List (Option (List Char))) :
    (answers clipboard settings interactive line inputs).line =
        (answers clipboard' settings' interactive' line inputs).line ∧
      (answers clipboard settings interactive line inputs).readable =
        (answers clipboard' settings' interactive' line inputs).readable := by
  induction line, inputs using induction_on with
  | ended line inputs ends =>
    rw [answers_of_ends ends, answers_of_ends ends]
    exact ⟨rfl, rfl⟩
  | answered line text rest goes_on ih =>
    rw [answers_cons goes_on, answers_cons goes_on]
    exact ih

/-! ## Sessions one after the other -/

/-- Each line of input is a text that does not end a session. -/
def GoesOn (inputs : List (Option (List Char))) : Prop :=
  ∀ input ∈ inputs, ∃ text, input = some text ∧ ¬Quits text

theorem goesOn_nil : GoesOn [] := List.forall_mem_nil _

theorem goesOn_cons_iff : GoesOn (some text :: rest) ↔ ¬Quits text ∧ GoesOn rest := by
  simp [GoesOn]

theorem Ends.not_goesOn_or (ends : Ends inputs) : ¬GoesOn inputs ∨ inputs = [] := by
  match inputs with
  | [] => exact .inr rfl
  | none :: rest => exact .inl fun goes_on => by simpa using goes_on none List.mem_cons_self
  | some text :: rest =>
    exact .inl fun goes_on => (goesOn_cons_iff.mp goes_on).1 (ends text rest rfl)

theorem answers_append (goes_on : GoesOn front) (back : List (Option (List Char))) :
    answers clipboard settings interactive line (front ++ back) =
      (answers clipboard settings interactive line front).followedBy
        (answers clipboard settings interactive
          (answers clipboard settings interactive line front).line back) := by
  induction line, front using induction_on with
  | ended line front ends =>
    rcases ends.not_goesOn_or with stops | rfl
    · exact absurd goes_on stops
    · rfl
  | answered line text rest continues ih =>
    rw [List.cons_append, answers_cons continues, answers_cons continues,
      ih (goesOn_cons_iff.mp goes_on).2, Transcript.followedBy_assoc]
    rfl

/-- Nothing behind the end of a session counts. -/
theorem answers_append_of_not_goesOn (stops : ¬GoesOn front) (back : List (Option (List Char))) :
    answers clipboard settings interactive line (front ++ back) =
      answers clipboard settings interactive line front := by
  induction line, front using induction_on with
  | ended line front ends =>
    have some_input : front ≠ [] := by
      rintro rfl
      exact stops goesOn_nil
    rw [answers_of_ends (ends.append some_input back), answers_of_ends ends,
      List.head?_append_of_ne_nil _ some_input]
  | answered line text rest continues ih =>
    have stops_later : ¬GoesOn rest := fun later => stops (goesOn_cons_iff.mpr ⟨continues, later⟩)
    rw [List.cons_append, answers_cons continues, answers_cons continues, ih stops_later]

/-! ## The characters of the line -/

/-- No request brings other characters into the line than those that keys and results do. -/
theorem plain_respond (request : Request) (plain : Plain line.text) :
    Plain (line.respond request).1.text := by
  have keeps (line : Line) (edit : Edit) (member : edit ∈ request.edits)
      (plain : Plain line.text) : Plain (line.apply edit).1.text := by
    refine Line.plain_apply (fun added insert => ?_) plain
    subst insert
    cases request with
    | type text =>
      obtain ⟨key, _, does⟩ := List.mem_filterMap.mp member
      exact (Edit.keyed_of_ofChar? does).plain added rfl
    | clear | moveTo => simp [Request.edits] at member
    | quit | help | copy | badPosition | unknown => cases member
  rw [Line.respond_eq_applyAll]
  exact Line.applyAll_keeps_of_mem keeps plain

theorem plain_transcript (clipboard : Clipboard) (settings : Settings) (interactive : Bool)
    (inputs : List (Option (List Char))) :
    Plain (transcript settings interactive inputs clipboard).line.text := by
  have keeps (line : Line) (request : Request) (plain : Plain line.text) :=
    plain_respond request plain
  have start : Plain Line.empty.text := plain_nil
  exact answers_keeps keeps start clipboard settings interactive inputs

end Session

end DeskCalculator
