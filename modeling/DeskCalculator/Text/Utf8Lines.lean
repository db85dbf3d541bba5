/-!
# Lines of bytes

Input arrives as bytes and is read line by line. A line ends at a line feed; a carriage return
right before it is dropped, and a last line without a line feed counts like the others.
-/
namespace DeskCalculator

def lineFeed : UInt8 := 10

def carriageReturn : UInt8 := 13

/-- A line without the carriage return at its end, if it has one. -/
def dropReturn (line : List UInt8) : List UInt8 :=
  if line.getLast? = some carriageReturn then line.dropLast else line

def byteLines : List UInt8 → List (List UInt8)
  | [] => []
  | byte :: more =>
    let line := (byte :: more).takeWhile (· != lineFeed)
    let rest := (byte :: more).dropWhile (· != lineFeed)
    if rest = [] then [line] else dropReturn line :: byteLines (rest.drop 1)
termination_by bytes => bytes.length
decreasing_by
  have rest_le := (List.dropWhile_sublist (l := byte :: more) (· != lineFeed)).length_le
  rw [List.length_cons] at rest_le ⊢
  rw [List.length_drop]
  omega

def decodeUtf8? (bytes : List UInt8) : Option (List Char) :=
  (String.fromUTF8? ⟨bytes.toArray⟩).map String.toList

/-- The lines of the input as texts; `none` stands for a line that is not UTF-8. -/
def textLines (bytes : List UInt8) : List (Option (List Char)) :=
  (byteLines bytes).map decodeUtf8?

end DeskCalculator
