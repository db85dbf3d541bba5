/-!
# JSON output

Just enough of JSON to write an object of texts. Of the characters only quotes, backslashes and
control characters are escaped, by their short names where they have one.
-/
namespace DeskCalculator

namespace Json

def escaped (c : Char) : List Char :=
  if c = '"' then ['\\', '"']
  else if c = '\\' then ['\\', '\\']
  else if c = '\n' then ['\\', 'n']
  else if c = '\r' then ['\\', 'r']
  else if c = '\t' then ['\\', 't']
  else if c = '\x08' then ['\\', 'b']
  else if c = '\x0c' then ['\\', 'f']
  else if c.toNat < 32 then
    ['\\', 'u', '0', '0', Nat.digitChar (c.toNat / 16), Nat.digitChar (c.toNat % 16)]
  else [c]

def quoted (text : List Char) : List Char := '"' :: text.flatMap escaped ++ ['"']

/-- Fields as a JSON object, in order and without spaces. -/
def object (fields : List (List Char × List Char)) : List Char :=
  let members := fields.map fun field => quoted field.1 ++ ':' :: quoted field.2
  '\x7b' :: (members.intersperse [',']).flatten ++ ['\x7d']

end Json

end DeskCalculator
