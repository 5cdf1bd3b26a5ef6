import RpcBridge.Calendar.Civil

/-!
# Calendar/Instant — points in time

An instant counts seconds from 1970-01-01T00:00:00 UTC and nanoseconds within the second.  In the
last second of a minute the nanoseconds may go on for a second more: that is a leap second, which
is written as the sixtieth second of its minute and differs from the second that follows it.

An instant is written as an RFC 3339 timestamp in UTC, with as many groups of three fraction digits
as it needs.  A timestamp with any offset can be read; a leap second may then stand in any minute.
-/

namespace RpcBridge

-- Powers are the ones of the core library, also where an algebraic library is in scope.
attribute [local instance (high)] instPowNat

open Calendar

/-- The number of nanoseconds of a second. -/
def Calendar.second : Nat := 1000000000

/-- A point in time. -/
structure Instant where
  seconds : Int
  nanos : Nat
deriving DecidableEq

namespace Instant

/-- Whether the calendar has such an instant. -/
def isValid (i : Instant) : Bool :=
  let c := Civil.ofDays (i.seconds / 86400)
  firstYear ≤ c.year && c.year ≤ lastYear &&
    (i.nanos < second || (i.nanos < 2 * second && i.seconds % 60 == 59))

/-- The day of an instant, in UTC. -/
def civil (i : Instant) : Civil := Civil.ofDays (i.seconds / 86400)

/-- The fraction of a second, in 0, 3, 6 or 9 digits behind a point. -/
def fractionText (nanos : Nat) : String :=
  if nanos = 0 then ""
  else if nanos % 1000000 = 0 then "." ++ padded 3 (nanos / 1000000)
  else if nanos % 1000 = 0 then "." ++ padded 6 (nanos / 1000)
  else "." ++ padded 9 nanos

/-- The text of an instant; `utc` is how the offset of UTC is written. -/
def toText (utc : String) (i : Instant) : String :=
  let ofDay := (i.seconds % 86400).toNat
  let leap := if i.nanos < second then 0 else 1
  i.civil.toText ++ "T" ++ padded 2 (ofDay / 3600) ++ ":" ++ padded 2 (ofDay / 60 % 60) ++ ":" ++
    padded 2 (ofDay % 60 + leap) ++ fractionText (i.nanos - leap * second) ++ utc

/-- The instant as messages show it. -/
def shown (i : Instant) : String := i.toText "+00:00"

/-- The instant as it travels. -/
def wire (i : Instant) : String := i.toText "Z"

/-! ## Reading timestamps -/

/-- Reads the fraction of a second: digits beyond the ninth are dropped. -/
def fraction? (s : List Char) : Option (Nat × List Char) :=
  match s with
  | '.' :: rest =>
    let (digits, after) := spanNumber 9 rest
    if digits.isEmpty then none
    else
      let n := digits.foldl (fun n c => 10 * n + (c.toNat - '0'.toNat)) 0
      some (n * 10 ^ (9 - digits.length), after.dropWhile Char.isDigit)
  | _ => some (0, s)

/-- Reads an offset of hours and minutes behind its sign, as seconds. -/
def offset? (s : List Char) : Option Int := do
  let (hours, rest) ← number? 2 2 s
  let rest ← expect? ':' rest
  let (minutes, rest) ← number? 2 2 rest
  if rest.isEmpty && hours ≤ 23 && minutes ≤ 59 then
    some (((hours : Int) * 60 + minutes) * 60)
  else none

/-- Reads the offset from UTC that ends a timestamp, as seconds. -/
def zone? : List Char → Option Int
  | ['Z'] | ['z'] => some 0
  | '+' :: rest => offset? rest
  | '-' :: rest | '\u2212' :: rest => (offset? rest).map (- ·)
  | _ => none

/-- Reads a timestamp. -/
def ofText? (text : String) : Option Instant := do
  let (year, rest) ← number? 4 4 text.toList
  let rest ← expect? '-' rest
  let (month, rest) ← number? 2 2 rest
  let rest ← expect? '-' rest
  let (day, rest) ← number? 2 2 rest
  let rest ← match rest with
    | 'T' :: rest | 't' :: rest | ' ' :: rest => some rest
    | _ => none
  let (hour, rest) ← number? 2 2 rest
  let rest ← expect? ':' rest
  let (minute, rest) ← number? 2 2 rest
  let rest ← expect? ':' rest
  let (sec, rest) ← number? 2 2 rest
  let (nanos, rest) ← fraction? rest
  let offset ← zone? rest
  let civil : Civil := ⟨year, month, day⟩
  if civil.isValid && hour ≤ 23 && minute ≤ 59 && sec ≤ 60 then
    let leap := if sec = 60 then 1 else 0
    let ofDay : Int := ((hour * 60 + minute) * 60 + (sec - leap) : Nat)
    some ⟨civil.toDays * 86400 + ofDay - offset, nanos + leap * second⟩
  else none

end Instant

end RpcBridge
