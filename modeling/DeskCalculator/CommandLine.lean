import DeskCalculator.CommandLine.Arguments
import DeskCalculator.Session
import DeskCalculator.Text.Json

/-!
# Running from the command line

With an expression the program shows its result and is done; without one it holds a session on its
standard input. What a run writes and how it ends follow from its arguments, the settings file and
the input alone.
-/
namespace DeskCalculator

structure Report where
  output : List Char
  diagnostics : List Char
  exitCode : Nat
deriving DecidableEq

namespace CommandLine

def versionText : List Char := "calculette 0.1.0\n".toList

def usage : List Char :=
  ("Interactive calculator with live preview\n\n" ++
    "Usage: calculette [OPTIONS] [EXPRESSION]...\n\n" ++
    "Arguments:\n" ++
    "  [EXPRESSION]...  Expression to evaluate; starts an interactive session when omitted\n\n" ++
    "Options:\n" ++
    "      --preview          Show the tolerant live preview instead of committing\n" ++
    "      --json             Print the outcome as JSON\n" ++
    "      --copy             Copy a finite result to the clipboard\n" ++
    "      --config <CONFIG>  Configuration file " ++
    "(defaults to <config dir>/calculette/config.toml)\n" ++
    "  -h, --help             Print help\n" ++
    "  -V, --version          Print version\n").toList

def written (json : Bool) (expression result : List Char) : List Char :=
  if json then
    Json.object [("display_expression".toList, expression), ("display_result".toList, result)]
      ++ ['\n']
  else result ++ ['\n']

/-- The expression of a run: its parts with a space between each two. -/
def joined (parts : List (List Char)) : List Char := (parts.intersperse [' ']).flatten

/-- Shows an expression's result: the live preview, or what a commit shows. The run fails if the
evaluation does, or if a result was to be copied and could not be. -/
def evaluateOnce (clipboard : Clipboard) (options : Options) (settings : Settings) : Report :=
  let line := Line.empty.insert (joined options.expression)
  if options.preview then
    ⟨written options.json line.expression (preview line.text), [], 0⟩
  else match line.commit with
    | (_, none) => ⟨[], "Empty expression\n".toList, 1⟩
    | (_, some outcome) =>
      let output := written options.json outcome.expression outcome.result
      let wanted := if options.copy || settings.copyOnCommit then outcome.copyable else none
      match wanted.elim (.ok ()) clipboard.copy with
      | .error fault => ⟨output, fault.message ++ ['\n'], 1⟩
      | .ok () => ⟨output, [], if outcome.result = Display.error then 1 else 0⟩

/-- How a run ends that was a session, of which some output is still to be written. -/
def ended (output : List Char) (readable : Bool) : Report :=
  if readable then ⟨output, [], 0⟩
  else ⟨output, Session.unreadableMessage.toList ++ ['\n'], 1⟩

def session (clipboard : Clipboard) (settings : Settings) (input : List UInt8) : Report :=
  let transcript := Session.transcript settings false (textLines input) clipboard
  ended transcript.output transcript.readable

/-- What is left to do once the settings file was read. -/
def withSettings (path : String) (file : SettingsFile) (next : Settings → Report) : Report :=
  match Settings.ofFile file with
  | .error e => ⟨[], (e.message path).toList ++ ['\n'], 1⟩
  | .ok settings => next settings

/-- A run whose input is at hand as a whole, where `file` gives the contents of a path and of the
standard settings file. -/
def run (arguments : List (List Char)) (file : Option (List Char) → SettingsFile)
    (input : List UInt8) (clipboard : Clipboard := .unreachable) : Report :=
  match Invocation.ofArguments arguments with
  | .help => ⟨usage, [], 0⟩
  | .version => ⟨versionText, [], 0⟩
  | .misuse => ⟨[], usage, 2⟩
  | .run options =>
    withSettings (String.ofList (options.settingsPath.getD "config.toml".toList))
      (file options.settingsPath) fun settings =>
        if options.expression = [] then session clipboard settings input
        else evaluateOnce clipboard options settings

end CommandLine

end DeskCalculator
