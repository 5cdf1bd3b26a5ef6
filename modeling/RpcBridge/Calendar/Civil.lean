/-!
# Calendar/Civil — days of the Gregorian calendar

A civil date is a year, a month and a day of the proleptic Gregorian calendar, where the year zero
comes before the year one.  Days are also counted from 1970-01-01; `Civil.toDays` and
`Civil.ofDays` lead from one to the other.  Both count years from March on, so that a leap day is
the last day of its year, and take 400 years, which always have 146097 days, at a time.

A year from 0 to 9999 is written with four digits, any other one with its sign and at least four.
-/

namespace RpcBridge.Calendar

/-- A year, a month and a day. -/
structure Civil where
  year : Int
  month : Nat
  day : Nat
deriving DecidableEq

/-- Whether a year has a leap day. -/
def isLeap (year : Int) : Bool := year % 4 == 0 && (year % 100 != 0 || year % 400 == 0)

/-- The number of days of a month. -/
def daysIn (year : Int) (month : Nat) : Nat :=
  match month with
  | 2 => if isLeap year then 29 else 28
  | 4 | 6 | 9 | 11 => 30
  | _ => 31

/-- The first year of the calendar. -/
def firstYear : Int := -262143

/-- The last year of the calendar. -/
def lastYear : Int := 262142

/-- A number with leading zeros up to a number of digits. -/
def padded (width n : Nat) : String :=
  let digits := Nat.toDigits 10 n
  String.ofList (List.replicate (width - digits.length) '0' ++ digits)

/-- The text of a year. -/
def yearText (year : Int) : String :=
  if year < 0 then "-" ++ padded 4 year.natAbs
  else if year ≤ 9999 then padded 4 year.natAbs
  else "+" ++ padded 4 year.natAbs

namespace Civil

/-- Whether there is such a day. -/
def isValid (c : Civil) : Bool :=
  firstYear ≤ c.year && c.year ≤ lastYear && 1 ≤ c.month && c.month ≤ 12 &&
    1 ≤ c.day && c.day ≤ daysIn c.year c.month

/-- The number of days since 1970-01-01. -/
def toDays (c : Civil) : Int :=
  let year := if c.month ≤ 2 then c.year - 1 else c.year
  let era := year / 400
  let yearOfEra := year % 400
  let monthFromMarch : Int := if 2 < c.month then (c.month : Int) - 3 else (c.month : Int) + 9
  let dayOfYear := (153 * monthFromMarch + 2) / 5 + c.day - 1
  let dayOfEra := yearOfEra * 365 + yearOfEra / 4 - yearOfEra / 100 + dayOfYear
  era * 146097 + dayOfEra - 719468

/-- The civil date of a number of days since 1970-01-01. -/
def ofDays (days : Int) : Civil :=
  let fromMarch := days + 719468
  let era := fromMarch / 146097
  let dayOfEra := fromMarch % 146097
  let yearOfEra :=
    (dayOfEra - dayOfEra / 1460 + dayOfEra / 36524 - dayOfEra / 146096) / 365
  let dayOfYear := dayOfEra - (365 * yearOfEra + yearOfEra / 4 - yearOfEra / 100)
  let monthFromMarch := (5 * dayOfYear + 2) / 153
  let day := dayOfYear - (153 * monthFromMarch + 2) / 5 + 1
  let month := if monthFromMarch < 10 then monthFromMarch + 3 else monthFromMarch - 9
  let year := yearOfEra + era * 400
  ⟨if month ≤ 2 then year + 1 else year, month.toNat, day.toNat⟩

/-- The text of a civil date. -/
def toText (c : Civil) : String :=
  yearText c.year ++ "-" ++ padded 2 c.month ++ "-" ++ padded 2 c.day

end Civil

/-! ## Reading numbers -/

/-- The longest run of at most `most` digits at the start of a text. -/
def spanNumber (most : Nat) : List Char → List Char × List Char
  | [] => ([], [])
  | c :: rest =>
    match most with
    | 0 => ([], c :: rest)
    | more + 1 =>
      if c.isDigit then let (digits, after) := spanNumber more rest; (c :: digits, after)
      else ([], c :: rest)

/-- A number of at least `least` and at most `most` digits, and what follows it. -/
def number? (least most : Nat) (s : List Char) : Option (Nat × List Char) :=
  let (digits, rest) := spanNumber most s
  if digits.length < least then none
  else some (digits.foldl (fun n c => 10 * n + (c.toNat - '0'.toNat)) 0, rest)

/-- What follows a character that has to come first. -/
def expect? (c : Char) : List Char → Option (List Char)
  | d :: rest => if d = c then some rest else none
  | [] => none

end RpcBridge.Calendar
