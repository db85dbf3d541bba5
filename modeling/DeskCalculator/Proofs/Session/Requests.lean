import DeskCalculator.Proofs.Editor.Edit
import DeskCalculator.Proofs.Text.Span
import DeskCalculator.Session.Reply
import Mathlib.Data.List.TakeWhile

/-!
# Requests

A line of input is a command if it starts with a colon, blanks aside, and is typed otherwise. To the
line being edited every request means some edits in order. So typing several lines of input is
typing them as one.
-/
namespace DeskCalculator

/-! ## What a line of input asks for -/

namespace Session

/-- The first character that is no blank is a colon. -/
def IsCommand (text : List Char) : Prop := (trimBlanks text).head? = some ':'

instance : DecidablePred IsCommand :=
  fun text => inferInstanceAs (Decidable ((trimBlanks text).head? = some ':'))

/-- The line of input is a command whose first word is the one that ends a session. -/
def Quits (text : List Char) : Prop :=
  IsCommand text ∧
    ∃ name ∈ (words (trimBlanks text).tail).head?, name = "q".toList ∨ name = "quit".toList

theorem head?_trimBlanks (text : List Char) :
    (trimBlanks text).head? = text.find? (!isBlank ·) := by
  rw [trimBlanks, List.find?_not_eq_head?_dropWhile]
  cases start : text.dropWhile isBlank with
  | nil => rfl
  | cons c rest =>
    -- the first character behind the blanks is none itself, so that it is not trimmed at the end
    have no_blank : isBlank c = false := by
      have head := List.head?_dropWhile_not isBlank text
      simpa [start] using head
    have stop : [c].takeWhile isBlank = [] := by simp [no_blank]
    rw [List.reverse_cons, dropWhile_append_right rest.reverse stop]
    simp

theorem isCommand_iff_exists {text : List Char} :
    IsCommand text ↔ ∃ command, trimBlanks text = ':' :: command :=
  List.head?_eq_some_iff

/-- Lines that are no commands do not become one by being joined. -/
theorem not_isCommand_flatten {texts : List (List Char)}
    (no_commands : ∀ text ∈ texts, ¬IsCommand text) : ¬IsCommand texts.flatten := by
  intro command
  rw [IsCommand, head?_trimBlanks, List.find?_flatten] at command
  obtain ⟨text, member, colon⟩ := List.exists_of_findSome?_eq_some command
  rw [← head?_trimBlanks] at colon
  exact no_commands text member colon

end Session

namespace Request

open Session

variable {text : List Char}

theorem ofLine_of_not_isCommand (no_command : ¬IsCommand text) : ofLine text = .type text := by
  rw [ofLine]
  split
  · next command start => exact absurd (isCommand_iff_exists.mpr ⟨command, start⟩) no_command
  · rfl

theorem ofCommand_eq_quit_iff (command : List Char) :
    ofCommand command = .quit ↔
      ∃ name ∈ (words command).head?, name = "q".toList ∨ name = "quit".toList := by
  rw [ofCommand]
  cases words command with
  | nil => simp
  | cons name arguments =>
    simp only [List.head?_cons, Option.mem_some_iff, exists_eq_left']
    split
    · next quit => exact iff_of_true rfl quit
    · next no_quit =>
      -- every other name asks for something else
      refine iff_of_false ?_ no_quit
      repeat' split
      all_goals exact nofun

theorem ofLine_eq_quit_iff : ofLine text = .quit ↔ Quits text := by
  by_cases command : IsCommand text
  · obtain ⟨rest, start⟩ := isCommand_iff_exists.mp command
    rw [Quits, and_iff_right command, ofLine, start]
    exact ofCommand_eq_quit_iff rest
  · rw [ofLine_of_not_isCommand command]
    exact iff_of_false nofun fun quits => command quits.1

end Request

/-! ## What a request does to the line -/

/-- What a request does to the line, as edits. -/
def Request.edits : Request → List Edit
  | .type text => text.filterMap Edit.ofChar?
  | .clear => [.clear]
  | .moveTo position => [.moveTo position]
  | .quit | .help | .copy | .badPosition _ | .unknown _ => []

namespace Line

theorem respond_eq_applyAll (line : Line) (request : Request) :
    (line.respond request).1 = (line.applyAll request.edits).1 := by
  cases request <;> rfl

/-- The line after requests in order. -/
def respondAll (line : Line) : List Request → Line
  | [] => line
  | request :: rest => (line.respond request).1.respondAll rest

theorem respondAll_eq_applyAll (line : Line) (requests : List Request) :
    line.respondAll requests = (line.applyAll (requests.flatMap Request.edits)).1 := by
  induction requests generalizing line with
  | nil => rfl
  | cons request requests ih =>
    rw [respondAll, ih, respond_eq_applyAll, List.flatMap_cons, applyAll_append]

/-- An answer that shows a line shows the one that the request leaves, and says whether the edits of
the request have committed it. -/
theorem eq_of_reply_eq_view {line shown : Line} {request : Request} {committed : Bool}
    (view : (line.respond request).2 = .view shown committed) :
    shown = (line.respond request).1 ∧
      committed = !(line.applyAll request.edits).2.isEmpty := by
  cases request with
  | type text | clear | moveTo position =>
    cases view
    exact ⟨rfl, rfl⟩
  | copy =>
    rw [respond] at view
    split at view <;> cases view
  | quit | help | badPosition | unknown => cases view

end Line

/-- What is said of a number that is handed to the clipboard: that it was copied, or that copying
failed. -/
theorem Reply.exists_lines_copy (clipboard : Clipboard) (showPreview : Bool)
    (number : List Char) :
    ∃ said, (Reply.copy number).lines clipboard showPreview = [said] ∧
      (said.head? = some 'c' ∨ said.head? = some 'f') := by
  rw [lines]
  cases clipboard.copy number with
  | ok => exact ⟨_, rfl, .inl rfl⟩
  | error fault => cases fault <;> exact ⟨_, rfl, .inr rfl⟩

end DeskCalculator
