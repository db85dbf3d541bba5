import DeskCalculator.Number.Double
import DeskCalculator.Toml.Moment

/-!
# TOML tables

The values of a TOML document and the rules for adding to its tables. A table remembers how it came
to be, because that decides what may still be added to it: an inline table is complete as it
stands, a header may open a table only once, and a dotted key never adds to a table of a header
other than its own.
-/
namespace DeskCalculator

namespace Toml

/-- A key, or one part of a dotted key. -/
abbrev Key := List Char

/-- How a table came to be. -/
inductive Origin where
  /-- As a table on the way to one that a header names. -/
  | passing
  | header
  /-- As a table on the way to the last part of a dotted key. -/
  | dotted
  | inline
deriving DecidableEq

inductive Value where
  | string (text : List Char)
  | integer (n : Int)
  | float (x : Double)
  | boolean (b : Bool)
  | moment (m : Moment)
  | array (items : List Value)
  | table (origin : Origin) (entries : List (Key × Value))
  /-- An array whose tables have headers of their own, the latest first. -/
  | tables (latestFirst : List (List (Key × Value)))

/-- Keys with their values, in the order in which they were written. -/
abbrev Table := List (Key × Value)

namespace Table

def get? (table : Table) (key : Key) : Option Value :=
  (table.find? fun entry => decide (entry.1 = key)).map Prod.snd

/-- The table with a value for a key, in the key's place if it has one. -/
def put (table : Table) (key : Key) (value : Value) : Table :=
  if (table.get? key).isSome then
    table.map fun entry => if entry.1 = key then (key, value) else entry
  else table ++ [(key, value)]

/-- The table after `path = value`. A key is given a value once, and the table that a dotted key
adds to is one that dotted keys have made. The way there may lead through tables that headers have
only passed, and in an array of tables through the latest. -/
def assign? (table : Table) (path : List Key) (value : Value) : Option Table :=
  match path with
  | [] => none
  | [key] => if (table.get? key).isSome then none else some (table.put key value)
  | key :: rest =>
    match table.get? key with
    | none => (assign? [] rest value).map fun inner => table.put key (.table .dotted inner)
    | some (.table .dotted entries) =>
      (assign? entries rest value).map fun inner => table.put key (.table .dotted inner)
    | some (.table .passing entries) =>
      if rest.length = 1 then none
      else (assign? entries rest value).map fun inner => table.put key (.table .passing inner)
    | some (.tables (latest :: earlier)) =>
      if rest.length = 1 then none
      else (assign? latest rest value).map fun inner => table.put key (.tables (inner :: earlier))
    | some _ => none

/-- The table with the value at the end of a header's path changed. Tables on the way come to be
where they are missing; in an array of tables the way leads through the latest. -/
def update? (table : Table) (path : List Key) (change : Option Value → Option Value) :
    Option Table :=
  match path with
  | [] => none
  | [key] => (change (table.get? key)).map (table.put key)
  | key :: rest =>
    match table.get? key with
    | none => (update? [] rest change).map fun inner => table.put key (.table .passing inner)
    | some (.table origin entries) =>
      if origin = .inline then none
      else (update? entries rest change).map fun inner => table.put key (.table origin inner)
    | some (.tables (latest :: earlier)) =>
      (update? latest rest change).map fun inner => table.put key (.tables (inner :: earlier))
    | some _ => none

def openTable? (table : Table) (path : List Key) : Option Table :=
  table.update? path fun
    | none => some (.table .header [])
    | some (.table .passing entries) => some (.table .header entries)
    | some _ => none

def openElement? (table : Table) (path : List Key) : Option Table :=
  table.update? path fun
    | none => some (.tables [[]])
    | some (.tables latestFirst) => some (.tables ([] :: latestFirst))
    | some _ => none

/-- The table after `path = value` below the header of `heading`, or below none if it is empty. -/
def assignIn? (table : Table) (heading path : List Key) (value : Value) : Option Table :=
  if heading = [] then table.assign? path value
  else table.update? heading fun
    | some (.table origin entries) => (assign? entries path value).map (.table origin)
    | some (.tables (latest :: earlier)) =>
      (assign? latest path value).map fun inner => .tables (inner :: earlier)
    | _ => none

end Table

end Toml

end DeskCalculator
