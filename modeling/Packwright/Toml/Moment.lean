import Packwright.Text.Decimal

/-
  Dates and times. A date is a day of the calendar; a time of the day may leave out its seconds,
  and only with them has a fraction; a date and a time together may have an offset from universal
  time.
-/

namespace Packwright.Moment

/-- Reads a number of a given width. -/
def number? (width : Nat) (cs : List Char) : Option (Nat × List Char) :=
  let digits := cs.take width
  if digits.length = width ∧ digits.all Decimal.isDigit then
    some (Decimal.value digits, cs.drop width)
  else none

/-- Reads a number of two digits that is at most `limit`. -/
def upTo? (limit : Nat) (cs : List Char) : Option (Nat × List Char) :=
  (number? 2 cs).filter fun r => r.1 ≤ limit

/-- Passes over a character. -/
def pass? (c : Char) : List Char → Option (List Char)
  | d :: rest => if d = c then some rest else none
  | [] => none

/-- Whether a year has a day more. -/
def isLeap (year : Nat) : Bool := year % 4 == 0 && (year % 100 != 0 || year % 400 == 0)

/-- The number of days of a month. -/
def monthLength (year month : Nat) : Nat :=
  if month = 2 then (if isLeap year then 29 else 28)
  else if month = 4 ∨ month = 6 ∨ month = 9 ∨ month = 11 then 30
  else 31

/-- Passes over a date. -/
def date? (cs : List Char) : Option (List Char) := do
  let (year, cs) ← number? 4 cs
  let (month, cs) ← upTo? 12 (← pass? '-' cs)
  let (day, cs) ← upTo? (monthLength year month) (← pass? '-' cs)
  if month = 0 ∨ day = 0 then none else some cs

/-- Passes over the fraction of a second, if there is one. -/
def fraction? : List Char → Option (List Char)
  | '.' :: rest =>
    if rest.head?.any Decimal.isDigit then some (rest.dropWhile Decimal.isDigit) else none
  | rest => some rest

/-- Passes over the seconds of a time, if there are any. A minute may have a leap second. -/
def seconds? : List Char → Option (List Char)
  | ':' :: rest => do fraction? (← upTo? 60 rest).2
  | rest => some rest

/-- Passes over hours and minutes. -/
def minutes? (cs : List Char) : Option (List Char) := do
  let (_, cs) ← upTo? 23 cs
  let (_, cs) ← upTo? 59 (← pass? ':' cs)
  return cs

/-- Passes over a time of the day. -/
def time? (cs : List Char) : Option (List Char) := do
  seconds? (← minutes? cs)

/-- Passes over an offset, if there is one. -/
def offset? : List Char → Option (List Char)
  | [] => some []
  | c :: rest =>
    if c = 'Z' ∨ c = 'z' then some rest
    else if c = '+' ∨ c = '-' then minutes? rest
    else none

/-- Whether a text is a time of the day. -/
def isTime (cs : List Char) : Bool := time? cs == some []

/-- Whether a text is a date. -/
def isDate (cs : List Char) : Bool := date? cs == some []

/-- Whether a text is a date and a time. -/
def isDateTime (cs : List Char) : Bool :=
  match date? cs with
  | some (c :: rest) =>
    (c == 'T' || c == 't' || c == ' ') && (time? rest).bind offset? == some []
  | _ => false

end Packwright.Moment
