import RpcBridge.Calendar.Civil
import RpcBridge.Text.Invisible

/-!
# Calendar/Date — calendar dates

A date is a day that exists.  It is written `YYYY-MM-DD`; what is read may have white space in
front of each number, a month or day of one digit, and a signed year of any length.
-/

namespace RpcBridge

open Calendar

/-- A day of the calendar. -/
structure Date where
  civil : Civil
  valid : civil.isValid = true
deriving DecidableEq

namespace Date

/-- The date of a year, a month and a day, if there is one. -/
def ofCivil? (c : Civil) : Option Date :=
  if h : c.isValid = true then some ⟨c, h⟩ else none

/-- The text of a date. -/
def toText (d : Date) : String := d.civil.toText

/-- Reads a year: four digits at most, or a sign and any number of digits. -/
def year? (s : List Char) : Option (Int × List Char) :=
  match s with
  | '-' :: rest => (number? 1 rest.length rest).map fun (n, after) => (-(n : Int), after)
  | '+' :: rest => (number? 1 rest.length rest).map fun (n, after) => ((n : Int), after)
  | _ => (number? 1 4 s).map fun (n, after) => ((n : Int), after)

/-- Reads a month or a day of the month. -/
def twoDigits? (s : List Char) : Option (Nat × List Char) :=
  number? 1 2 (s.dropWhile Text.isBlank)

/-- Reads a date. -/
def ofText? (text : String) : Option Date := do
  let (year, rest) ← year? (text.toList.dropWhile Text.isBlank)
  let rest ← expect? '-' rest
  let (month, rest) ← twoDigits? rest
  let rest ← expect? '-' rest
  let (day, rest) ← twoDigits? rest
  if rest.isEmpty then ofCivil? ⟨year, month, day⟩ else none

end Date

end RpcBridge
