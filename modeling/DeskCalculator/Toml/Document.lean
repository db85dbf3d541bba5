import DeskCalculator.Toml.Quoted

/-!
# TOML documents

A document is a sequence of lines: headers, which say where the following keys belong, and keys
with their values. Values nest, and an array or an inline table may go over several lines, so the
readers count down a number of steps; two for each character of the text are more than they take.
Values nest only so deep, and a dotted key has no more parts than that.
-/
namespace DeskCalculator

namespace Toml

/-- How deep arrays and inline tables may nest, and how many parts a dotted key may have. -/
def depthLimit : Nat := 80

def skipSpace (text : List Char) : List Char := text.dropWhile fun c => c == ' ' || c == '\t'

/-- What follows a comment, without its hash sign, up to the line break. -/
def afterComment (text : List Char) : List Char := text.dropWhile isPlain

/-- The text behind the rest of a line on which nothing but a comment is left. -/
def afterLine? (text : List Char) : Option (List Char) :=
  let rest := match skipSpace text with
    | '#' :: comment => afterComment comment
    | rest => rest
  if rest = [] then some [] else afterBreak? rest

/-- The text behind any spaces, line breaks and comments it starts with. -/
def skipGaps (steps : Nat) (text : List Char) : List Char :=
  match steps with
  | 0 => text
  | steps + 1 =>
    match skipSpace text with
    | '#' :: comment => skipGaps steps (afterComment comment)
    | rest => match afterBreak? rest with
      | some next => skipGaps steps next
      | none => rest

def keyPart? (text : List Char) : Option (Key × List Char) :=
  let bare := text.takeWhile isWordChar
  if bare = [] then quotedKey? text else some (bare, text.drop bare.length)

/-- A key of at most so many dotted parts, and what follows the spaces behind it. -/
def keyParts? (parts : Nat) (text : List Char) : Option (List Key × List Char) :=
  match parts with
  | 0 => none
  | parts + 1 =>
    (keyPart? (skipSpace text)).bind fun (key, rest) =>
      match skipSpace rest with
      | '.' :: more => (keyParts? parts more).map fun (path, last) => (key :: path, last)
      | last => some ([key], last)

def keyPath? (text : List Char) : Option (List Key × List Char) := keyParts? depthLimit text

def isScalarChar (c : Char) : Bool := isWordChar c || c == '+' || c == '.'

/-- A value in which no other nests, and what follows it. -/
def simple? (text : List Char) : Option (Value × List Char) :=
  match quoted? text with
  | some (string, last) => some (.string string, last)
  | none =>
    match Moment.read? text with
    | some (moment, last) => some (.moment moment, last)
    | none =>
      let word := text.takeWhile isScalarChar
      (scalar? word).map fun value => (value, text.drop word.length)

mutual

/-- A value in which values nest at most `depth` deep, and what follows it. -/
def value? (steps depth : Nat) (text : List Char) : Option (Value × List Char) :=
  match steps with
  | 0 => none
  | steps + 1 =>
    match text, depth with
    | '[' :: rest, depth + 1 =>
      (items? steps depth (skipGaps steps rest)).map fun (items, last) => (.array items, last)
    | '{' :: rest, depth + 1 =>
      (fields? steps depth [] (skipGaps steps rest)).map fun (entries, last) =>
        (.table .inline entries, last)
    | _, _ => simple? text

def items? (steps depth : Nat) (text : List Char) : Option (List Value × List Char) :=
  match steps with
  | 0 => none
  | steps + 1 =>
    match text with
    | ']' :: rest => some ([], rest)
    | _ =>
      (value? steps depth text).bind fun (item, rest) =>
        match skipGaps steps rest with
        | ',' :: more => (items? steps depth (skipGaps steps more)).map fun (items, last) =>
            (item :: items, last)
        | ']' :: last => some ([item], last)
        | _ => none

/-- The fields of an inline table up to its closing brace, behind those read before. A field may go
over several lines, though its key may not. -/
def fields? (steps depth : Nat) (table : Table) (text : List Char) : Option (Table × List Char) :=
  match steps with
  | 0 => none
  | steps + 1 =>
    match text with
    | '}' :: rest => some (table, rest)
    | _ =>
      (keyPath? text).bind fun (path, behind) =>
        match skipGaps steps behind with
        | '=' :: rest =>
          (value? steps depth (skipGaps steps rest)).bind fun (value, after) =>
            (table.assign? path value).bind fun next =>
              match skipGaps steps after with
              | ',' :: more => fields? steps depth next (skipGaps steps more)
              | '}' :: last => some (next, last)
              | _ => none
        | _ => none

end

/-- The document's table after the lines that are left, below the header of `heading`. -/
def lines? (steps : Nat) (table : Table) (heading : List Key) (text : List Char) :
    Option Table :=
  match steps with
  | 0 => none
  | steps + 1 =>
    match skipGaps steps text with
    | [] => some table
    | '[' :: '[' :: rest =>
      match keyPath? rest with
      | some (path, ']' :: ']' :: after) =>
        (table.openElement? path).bind fun next =>
          (afterLine? after).bind fun more => lines? steps next path more
      | _ => none
    | '[' :: rest =>
      match keyPath? rest with
      | some (path, ']' :: after) =>
        (table.openTable? path).bind fun next =>
          (afterLine? after).bind fun more => lines? steps next path more
      | _ => none
    | rest =>
      match keyPath? rest with
      | some (path, '=' :: after) =>
        (value? steps depthLimit (skipSpace after)).bind fun (value, last) =>
          (table.assignIn? heading path value).bind fun next =>
            (afterLine? last).bind fun more => lines? steps next heading more
      | _ => none

/-- The table of a document; `none` if the text is no TOML. A byte order mark may stand in front. -/
def document? (text : List Char) : Option Table :=
  let body := match text with
    | '\ufeff' :: rest => rest
    | _ => text
  lines? (2 * body.length + 2) [] [] body

end Toml

end DeskCalculator
