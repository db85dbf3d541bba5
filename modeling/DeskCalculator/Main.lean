import DeskCalculator.CommandLine

/-!
# The program

Connects the command line to the world: the environment, the settings file and the standard
streams.
-/
namespace DeskCalculator

/-- The standard place of the settings file, if the environment tells where settings live. -/
def standardSettingsPath : IO (Option String) := do
  let home := (← IO.getEnv "HOME").filter (! ·.isEmpty) |>.map (· ++ "/.config")
  let base := ((← IO.getEnv "XDG_CONFIG_HOME").filter (·.startsWith "/")).or home
  return base.map (· ++ "/calculette/config.toml")

def readSettingsFile (path : String) : IO SettingsFile := do
  try
    return .bytes (← IO.FS.readBinFile path).toList
  catch
    | .noFileOrDirectory .. => return .missing
    | _ => return .unreadable

/-- The contents of the file at a path, or at the standard place. -/
def locateSettings (path : Option (List Char)) : IO (String × SettingsFile) := do
  match path.map String.ofList with
  | some path => return (path, ← readSettingsFile path)
  | none =>
    match ← standardSettingsPath with
    | some path => return (path, ← readSettingsFile path)
    | none => return ("config.toml", .missing)

/-- The bytes of the next line of input, with its line feed; none at the end of the input. -/
def nextLine (input : IO.FS.Stream) : IO (List UInt8) := do
  let mut line := #[]
  repeat
    let byte ← input.read 1
    line := line ++ byte.data
    if byte.isEmpty || line.back? = some lineFeed then break
  return line.toList

/-- Reads the lines of a session with a person and writes each answer before the next line is read.
What comes back is whether all that was read was text. -/
partial def converse (settings : Settings) (line : Line) (input output : IO.FS.Stream) :
    IO Bool := do
  match textLines (← nextLine input) with
  | [] => return true
  | text :: _ =>
    let taken := Session.step .unreachable settings true line text
    output.putStr (String.ofList taken.answered.output)
    output.flush
    if taken.goesOn then converse settings taken.answered.line input output
    else return taken.answered.readable

def deliver (report : Report) : IO UInt32 := do
  let output ← IO.getStdout
  output.putStr (String.ofList report.output)
  output.flush
  (← IO.getStderr).putStr (String.ofList report.diagnostics)
  return UInt32.ofNat report.exitCode

end DeskCalculator

open DeskCalculator in
def main (arguments : List String) : IO UInt32 := do
  let arguments := arguments.map String.toList
  let input ← IO.getStdin
  match Invocation.ofArguments arguments with
  | .run options =>
    let (path, file) ← locateSettings options.settingsPath
    if options.expression ≠ [] then
      deliver (CommandLine.withSettings path file (CommandLine.evaluateOnce .unreachable options))
    else if ← input.isTty then
      match Settings.ofFile file with
      | .error _ => deliver (CommandLine.withSettings path file fun _ => ⟨[], [], 0⟩)
      | .ok settings =>
        let output ← IO.getStdout
        output.putStr (String.ofList (Session.greeting settings true))
        output.flush
        deliver (CommandLine.ended [] (← converse settings .empty input output))
    else
      let bytes ← input.readBinToEnd
      deliver (CommandLine.withSettings path file fun settings =>
        CommandLine.session .unreachable settings bytes.toList)
  | _ => deliver (CommandLine.run arguments (fun _ => .missing) [])
