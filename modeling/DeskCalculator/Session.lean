import DeskCalculator.Session.Reply
import DeskCalculator.Settings

/-!
# Sessions

A session answers line by line until the input ends, a line says to quit, or a line is no text.
-/
namespace DeskCalculator

/-- What a session has written, the line it has come to, the results it has tried to copy, and
whether all it read was text. -/
structure Transcript where
  output : List Char
  line : Line
  attempts : List (List Char)
  readable : Bool
deriving DecidableEq

/-- What has become of two sessions, of which the second starts where the first has stopped. -/
def Transcript.followedBy (first later : Transcript) : Transcript :=
  { later with
    output := first.output ++ later.output
    attempts := first.attempts ++ later.attempts }

namespace Session

def unreadableMessage : String := "stream did not contain valid UTF-8"

def prompt (settings : Settings) (interactive : Bool) : List Char :=
  if interactive then settings.prompt else []

def greeting (settings : Settings) (interactive : Bool) : List Char :=
  if interactive then Reply.helpText.flatMap (· ++ ['\n']) ++ settings.prompt else []

/-- What a session tries to copy on a request: the results of its commits that may be copied, if
the settings say so, and the number shown where that is asked for. -/
def attempts (settings : Settings) (line : Line) : Request → List (List Char)
  | .type text =>
    if settings.copyOnCommit then (line.typeText text).2.filterMap Outcome.copyable else []
  | .copy => if line.hasNumber then [line.result] else []
  | .quit | .help | .clear | .moveTo _ | .badPosition _ | .unknown _ => []

/-- The session over a line of input that is answered. -/
def answer (clipboard : Clipboard) (settings : Settings) (interactive : Bool) (line : Line)
    (request : Request) : Transcript :=
  ⟨(line.respond request).2.render clipboard settings.showPreview ++ prompt settings interactive,
    (line.respond request).1, attempts settings line request, true⟩

/-- The session over one line of input, and whether it goes on behind it. -/
structure Step where
  answered : Transcript
  goesOn : Bool

/-- What a session makes of a line of input, which is `none` if it is no text. -/
def step (clipboard : Clipboard) (settings : Settings) (interactive : Bool) (line : Line) :
    Option (List Char) → Step
  | none => ⟨⟨[], line, [], false⟩, false⟩
  | some input =>
    let request := Request.ofLine input
    if request = .quit then ⟨⟨[], line, [], true⟩, false⟩
    else ⟨answer clipboard settings interactive line request, true⟩

/-- The answers to the lines of input that are left. -/
def answers (clipboard : Clipboard) (settings : Settings) (interactive : Bool) (line : Line) :
    List (Option (List Char)) → Transcript
  | [] => ⟨[], line, [], true⟩
  | input :: rest =>
    let taken := step clipboard settings interactive line input
    if taken.goesOn then
      taken.answered.followedBy
        (answers clipboard settings interactive taken.answered.line rest)
    else taken.answered

/-- A whole session. The clipboard is out of reach unless one is given. -/
def transcript (settings : Settings) (interactive : Bool) (input : List (Option (List Char)))
    (clipboard : Clipboard := .unreachable) : Transcript :=
  let answered := answers clipboard settings interactive .empty input
  { answered with output := greeting settings interactive ++ answered.output }

end Session

end DeskCalculator
