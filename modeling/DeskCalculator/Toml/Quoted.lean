import DeskCalculator.Toml.Scalar

/-!
# TOML strings

Four kinds of strings: between double quotes, where a backslash starts an escape, or between single
quotes, where nothing does, and each on one line or, between three quotes, on several. Each reader
takes the text behind the opening quotes and gives the string with what follows the closing ones.
-/
namespace DeskCalculator

namespace Toml

/-- A character that may stand for itself in a string or a comment. -/
def isPlain (c : Char) : Bool := c == '\t' || (decide (32 ≤ c.toNat) && c != '\x7f')

/-- The character with a number written as so many hexadecimal digits. -/
def codePoint? (ds : List Char) (count : Nat) : Option (Char × Nat) :=
  let taken := ds.take count
  if taken.length < count ∨ taken.contains '_' then none
  else (digitsIn? 16 taken).bind fun n =>
    if n.isValidChar then some (Char.ofNat n, count + 1) else none

/-- The character that an escape stands for, and the length of the escape behind its backslash. -/
def escape? : List Char → Option (Char × Nat)
  | 'b' :: _ => some ('\x08', 1)
  | 't' :: _ => some ('\t', 1)
  | 'n' :: _ => some ('\n', 1)
  | 'f' :: _ => some ('\x0c', 1)
  | 'r' :: _ => some ('\r', 1)
  | 'e' :: _ => some ('\x1b', 1)
  | '"' :: _ => some ('"', 1)
  | '\\' :: _ => some ('\\', 1)
  | 'x' :: rest => codePoint? rest 2
  | 'u' :: rest => codePoint? rest 4
  | 'U' :: rest => codePoint? rest 8
  | _ => none

/-- The text behind a line break, if it starts with one. -/
def afterBreak? : List Char → Option (List Char)
  | '\n' :: rest => some rest
  | '\r' :: '\n' :: rest => some rest
  | _ => none

def prepend (c : Char) : Option (List Char × List Char) → Option (List Char × List Char) :=
  Option.map fun (text, rest) => (c :: text, rest)

def lineString? (quote : Char) (escapes : Bool) : List Char → Option (List Char × List Char)
  | [] => none
  | c :: rest =>
    if c = quote then some ([], rest)
    else if escapes = true ∧ c = '\\' then
      match escape? rest with
      | some (e, length) => prepend e (lineString? quote escapes (rest.drop length))
      | none => none
    else if isPlain c then prepend c (lineString? quote escapes rest)
    else none
termination_by text => text.length
decreasing_by
  · exact Nat.lt_succ_of_le (List.drop_sublist _ _).length_le
  · exact Nat.lt_succ_self _

/-- The text behind the blank and empty lines that a backslash at the end of a line skips. -/
def skipLines : List Char → List Char
  | ' ' :: rest => skipLines rest
  | '\t' :: rest => skipLines rest
  | '\n' :: rest => skipLines rest
  | '\r' :: '\n' :: rest => skipLines rest
  | text => text

theorem length_skipLines_le (text : List Char) : (skipLines text).length ≤ text.length := by
  fun_induction skipLines text with
  | case5 => exact Nat.le_refl _
  | case4 rest ih => exact Nat.le_trans ih (Nat.le_add_right _ 2)
  | _ rest ih => exact Nat.le_succ_of_le ih

def endsLine (text : List Char) : Bool :=
  (afterBreak? (text.dropWhile fun c => c == ' ' || c == '\t')).isSome

/-- A string of several lines. Up to two quotes more than the three that close it belong to it. -/
def blockString? (quote : Char) (escapes : Bool) : List Char → Option (List Char × List Char)
  | [] => none
  | c :: rest =>
    if c = quote then
      let more := (rest.takeWhile (· == quote)).length
      if more < 2 then prepend c (blockString? quote escapes rest)
      else if more < 5 then some (List.replicate (more - 2) quote, rest.drop more)
      else none
    else if escapes = true ∧ c = '\\' then
      if endsLine rest then blockString? quote escapes (skipLines rest)
      else match escape? rest with
        | some (e, length) => prepend e (blockString? quote escapes (rest.drop length))
        | none => none
    else if isPlain c ∨ c = '\n' ∨ (c = '\r' ∧ rest.head? = some '\n') then
      prepend c (blockString? quote escapes rest)
    else none
termination_by text => text.length
decreasing_by
  · exact Nat.lt_succ_self _
  · exact Nat.lt_succ_of_le (length_skipLines_le _)
  · exact Nat.lt_succ_of_le (List.drop_sublist _ _).length_le
  · exact Nat.lt_succ_self _

def quoted? : List Char → Option (List Char × List Char)
  | '"' :: '"' :: '"' :: rest => blockString? '"' true ((afterBreak? rest).getD rest)
  | '\'' :: '\'' :: '\'' :: rest => blockString? '\'' false ((afterBreak? rest).getD rest)
  | '"' :: rest => lineString? '"' true rest
  | '\'' :: rest => lineString? '\'' false rest
  | _ => none

/-- A string of one line, with its quotes, as a key may be written. -/
def quotedKey? : List Char → Option (List Char × List Char)
  | '"' :: rest => lineString? '"' true rest
  | '\'' :: rest => lineString? '\'' false rest
  | _ => none

end Toml

end DeskCalculator
