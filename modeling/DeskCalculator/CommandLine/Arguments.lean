/-!
# Arguments

Arguments are read from left to right, and the first one that settles the matter does: a request
for help or for the version, or a misuse. An option is given once at most. A lone hyphen is part of
the expression, and so is everything behind two hyphens that stand alone.
-/
namespace DeskCalculator

structure Options where
  /-- The parts of the expression, in order; none for a session. -/
  expression : List (List Char)
  /-- Show the live preview instead of committing. -/
  preview : Bool
  json : Bool
  copy : Bool
  /-- The settings file, if one is named. -/
  settingsPath : Option (List Char)
deriving DecidableEq

inductive Invocation where
  | run (options : Options)
  | help
  | version
  | misuse
deriving DecidableEq

namespace Invocation

/-- Whether an argument cannot be the value of the option before it. -/
def isOptionLike (argument : List Char) : Bool :=
  argument.head? = some '-' && argument ≠ ['-']

/-- What the remaining arguments make of the options so far. -/
def ofArgumentsFrom (options : Options) : List (List Char) → Invocation
  | [] => .run options
  | argument :: rest =>
    if argument = "--".toList then
      .run { options with expression := options.expression ++ rest }
    else if argument = "--preview".toList ∧ options.preview = false then
      ofArgumentsFrom { options with preview := true } rest
    else if argument = "--json".toList ∧ options.json = false then
      ofArgumentsFrom { options with json := true } rest
    else if argument = "--copy".toList ∧ options.copy = false then
      ofArgumentsFrom { options with copy := true } rest
    else if argument = "--config".toList ∧ options.settingsPath = none then
      match rest with
      | value :: later =>
        if value = [] ∨ isOptionLike value = true then .misuse
        else ofArgumentsFrom { options with settingsPath := some value } later
      | [] => .misuse
    else if "--config=".toList.isPrefixOf argument = true ∧ options.settingsPath = none then
      let value := argument.drop "--config=".length
      if value = [] then .misuse
      else ofArgumentsFrom { options with settingsPath := some value } rest
    else if argument = "--help".toList then .help
    else if argument = "--version".toList then .version
    else if isOptionLike argument = true then
      match argument with
      | _ :: 'h' :: _ => .help
      | _ :: 'V' :: _ => .version
      | _ => .misuse
    else ofArgumentsFrom { options with expression := options.expression ++ [argument] } rest

def ofArguments (arguments : List (List Char)) : Invocation :=
  ofArgumentsFrom ⟨[], false, false, false, none⟩ arguments

end Invocation

end DeskCalculator
