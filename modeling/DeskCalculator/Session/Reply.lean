import DeskCalculator.Clipboard
import DeskCalculator.Editor.Edit
import DeskCalculator.Session.Request

/-!
# What a session answers

The answer to a request depends neither on the settings nor on the clipboard. The settings decide
only how much of it is written, and whether a prompt follows; the clipboard decides what is said of
a result that is to be copied.
-/
namespace DeskCalculator

inductive Reply where
  /-- The line as it is now, and whether the request committed it. -/
  | view (line : Line) (committed : Bool)
  | help
  | badPosition (word : List Char)
  | nothingToCopy
  /-- The number is handed to the clipboard. -/
  | copy (number : List Char)
  | unknown (command : List Char)
  | farewell
deriving DecidableEq

/-- The line with a bar at the cursor, unless the cursor is at the end. -/
def Line.marked (line : Line) : List Char :=
  if line.after = [] then line.expression else line.before.reverse ++ '|' :: line.after

namespace Reply

def helpText : List (List Char) :=
  ["keys: 0-9 . + - * / ^ ( )   r or √: square root".toList,
    "      = commit   b: backspace   c: clear   < >: move cursor".toList,
    "commands: :cursor N   :copy   :clear   :help   :quit".toList]

/-- The lines of an answer. A result that is empty, because there is none yet, is left out, and so
is a preview that is not wanted. -/
def lines (clipboard : Clipboard) (showPreview : Bool) : Reply → List (List Char)
  | .view line committed =>
    line.marked ::
      if (committed || showPreview) && line.result ≠ [] then ['=' :: ' ' :: line.result] else []
  | .help => helpText
  | .badPosition word => ["invalid cursor position: ".toList ++ word]
  | .nothingToCopy => ["nothing to copy".toList]
  | .copy number =>
    match clipboard.copy number with
    | .ok () => ["copied ".toList ++ number]
    | .error fault => [fault.message]
  | .unknown command => ["unknown command :".toList ++ command ++ " (try :help)".toList]
  | .farewell => []

def render (clipboard : Clipboard) (showPreview : Bool) (reply : Reply) : List Char :=
  (reply.lines clipboard showPreview).flatMap (· ++ ['\n'])

end Reply

namespace Line

/-- Whether the result shown is a number, which may be copied. -/
def hasNumber (line : Line) : Bool :=
  !(decide (line.result = []) || decide (line.result = Display.error) ||
    Display.isSentinel line.result)

def respond (line : Line) : Request → Line × Reply
  | .type text =>
    let (next, outcomes) := line.typeText text
    (next, .view next (!outcomes.isEmpty))
  | .quit => (line, .farewell)
  | .help => (line, .help)
  | .clear => (empty, .view empty false)
  | .copy => (line, if line.hasNumber then .copy line.result else .nothingToCopy)
  | .moveTo position => (line.moveTo position, .view (line.moveTo position) false)
  | .badPosition word => (line, .badPosition word)
  | .unknown command => (line, .unknown command)

end Line

end DeskCalculator
