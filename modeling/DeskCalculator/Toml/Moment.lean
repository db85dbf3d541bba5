import DeskCalculator.Number.Numeral

/-!
# TOML dates and times

A moment is a date, a time of day or both, and only a date with a time may say how far its clock is
from universal time. Each reader takes a text and gives what it starts with and what follows.
-/
namespace DeskCalculator

namespace Toml

structure Date where
  year : Nat
  month : Nat
  day : Nat
deriving DecidableEq

/-- A time of day. The digits behind the point of a second are kept as written. -/
structure Time where
  hour : Nat
  minute : Nat
  second : Nat
  fraction : List Char
deriving DecidableEq

structure Moment where
  date : Option Date
  time : Option Time
  /-- The minutes by which the clock is ahead of universal time. -/
  offset : Option Int
deriving DecidableEq

def digits? (count : Nat) (text : List Char) : Option (Nat × List Char) :=
  let ds := text.take count
  if ds.length = count ∧ ds.all Char.isDigit then
    some (Numeral.digitsValue ds, text.drop count)
  else none

/-- The number written as two digits behind a mark. -/
def marked? (mark : Char) : List Char → Option (Nat × List Char)
  | [] => none
  | c :: rest => if c = mark then digits? 2 rest else none

namespace Date

def isLeapYear (year : Nat) : Bool := year % 4 == 0 && (year % 100 != 0 || year % 400 == 0)

def daysIn (year month : Nat) : Nat :=
  if month = 2 then (if isLeapYear year then 29 else 28)
  else if month = 4 ∨ month = 6 ∨ month = 9 ∨ month = 11 then 30
  else 31

/-- The date that a text starts with, as `2024-02-29`. -/
def read? (text : List Char) : Option (Date × List Char) :=
  (digits? 4 text).bind fun (year, rest) =>
  (marked? '-' rest).bind fun (month, rest) =>
  (marked? '-' rest).bind fun (day, rest) =>
    if (1 ≤ month ∧ month ≤ 12) ∧ (1 ≤ day ∧ day ≤ daysIn year month) then
      some (⟨year, month, day⟩, rest)
    else none

end Date

namespace Time

/-- The fraction of a second that a text starts with, if it does, without its point. -/
def splitFraction (text : List Char) : List Char × List Char :=
  match text with
  | '.' :: rest =>
    let ds := rest.takeWhile Char.isDigit
    if ds = [] then ([], text) else (ds, rest.drop ds.length)
  | _ => ([], text)

def clock? (text : List Char) : Option ((Nat × Nat) × List Char) :=
  (digits? 2 text).bind fun (hour, rest) =>
  (marked? ':' rest).bind fun (minute, rest) =>
    if hour < 24 ∧ minute < 60 then some ((hour, minute), rest) else none

/-- The time that a text starts with, as `07:32` or `07:32:59.25`. A leap second is second 60. -/
def read? (text : List Char) : Option (Time × List Char) :=
  (clock? text).map fun ((hour, minute), rest) =>
    match marked? ':' rest with
    | some (second, more) =>
      if second ≤ 60 then
        let (ds, last) := splitFraction more
        (⟨hour, minute, second, ds⟩, last)
      else (⟨hour, minute, 0, []⟩, rest)
    | none => (⟨hour, minute, 0, []⟩, rest)

end Time

namespace Moment

/-- The offset that a text starts with, if it does: `Z`, or a sign before hours and minutes. -/
def splitOffset (text : List Char) : Option Int × List Char :=
  match text with
  | [] => (none, text)
  | c :: rest =>
    if c = 'Z' ∨ c = 'z' then (some 0, rest)
    else if c = '+' ∨ c = '-' then
      match Time.clock? rest with
      | some ((hours, minutes), last) =>
        let ahead : Int := 60 * hours + minutes
        (some (if c = '-' then -ahead else ahead), last)
      | none => (none, text)
    else (none, text)

/-- The moment that a date makes with the time behind it, if there is one. -/
def withTime (date : Date) (text : List Char) : Moment × List Char :=
  match text with
  | [] => (⟨date, none, none⟩, text)
  | c :: rest =>
    if c = 'T' ∨ c = 't' ∨ c = ' ' then
      match Time.read? rest with
      | some (time, more) =>
        let (ahead, last) := splitOffset more
        (⟨date, time, ahead⟩, last)
      | none => (⟨date, none, none⟩, text)
    else (⟨date, none, none⟩, text)

/-- The moment that a text starts with. What could not be read as a part of it is left over. -/
def read? (text : List Char) : Option (Moment × List Char) :=
  match Date.read? text with
  | some (date, rest) => some (withTime date rest)
  | none => (Time.read? text).map fun (time, rest) => (⟨none, time, none⟩, rest)

end Moment

end Toml

end DeskCalculator
