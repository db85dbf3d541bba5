import DeskCalculator.Evaluation.Preview

/-!
# The line being edited

An expression line with a cursor, split at the cursor: a cursor beyond either end cannot be
written down, and every edit at the cursor works on the heads of two lists. After a commit the
line also holds the result to show, until the next edit that takes effect.
-/
namespace DeskCalculator

structure Line where
  /-- The characters before the cursor, the nearest first. -/
  before : List Char
  /-- The characters after the cursor, in order. -/
  after : List Char
  /-- The result of the last commit, while it is still to be shown. -/
  committed : Option (List Char)
deriving DecidableEq

namespace Line

def empty : Line := ⟨[], [], none⟩

/-- A line that holds a text, with the cursor at its end. -/
def ofText (text : List Char) : Line := ⟨text.reverse, [], none⟩

def text (line : Line) : List Char := line.before.reverse ++ line.after

def cursor (line : Line) : Nat := line.before.length

def length (line : Line) : Nat := line.before.length + line.after.length

theorem text_ofText (text : List Char) : (ofText text).text = text := by
  simp [ofText, Line.text]

theorem length_text (line : Line) : line.text.length = line.length := by
  simp [text, length]

theorem cursor_le_length (line : Line) : line.cursor ≤ line.length :=
  Nat.le_add_right _ _

/-- The expression as it is shown: an empty one as a zero. -/
def expression (line : Line) : List Char := if line.text = [] then ['0'] else line.text

/-- The result as it is shown: that of the last commit, or else the live preview. -/
def result (line : Line) : List Char := line.committed.getD (preview line.text)

/-- The line with a text put in at the cursor, which moves behind it. -/
def insert (line : Line) (text : List Char) : Line :=
  ⟨text.reverse ++ line.before, line.after, none⟩

/-- The line without the character before the cursor; at the start nothing happens. -/
def backspace (line : Line) : Line :=
  match line.before with
  | [] => line
  | _ :: rest => ⟨rest, line.after, none⟩

/-- The line with the cursor behind so many characters, or at the end if there are fewer. -/
def moveTo (line : Line) (position : Nat) : Line :=
  ⟨(line.text.take position).reverse, line.text.drop position, none⟩

def moveLeft (line : Line) : Line := line.moveTo (line.cursor - 1)

def moveRight (line : Line) : Line := line.moveTo (line.cursor + 1)

theorem text_moveTo (line : Line) (position : Nat) : (line.moveTo position).text = line.text := by
  simp [moveTo, text]

theorem cursor_moveTo (line : Line) (position : Nat) :
    (line.moveTo position).cursor = min position line.length := by
  simp [moveTo, cursor, ← length_text]

end Line

end DeskCalculator
