import RpcBridge.Calendar.Civil
import RpcBridge.Number.Numeral
import RpcBridge.Toml.Basic
import RpcBridge.Toml.Quoted

/-!
# Toml/Scalar — TOML numbers, truth values, dates and times

Everything that is neither quoted nor bracketed is a word (`isWordChar`), and a word is read as a
whole: truth values, integers of sixty-four bits in base ten, sixteen, eight and two, floating-point
numbers, dates and times.
-/

namespace RpcBridge.Toml

-- Powers are the ones of the core library, also where an algebraic library is in scope.
attribute [local instance (high)] instPowNat

/-- Whether a character may stand in a word. -/
def isWordChar (c : Char) : Bool :=
  c.isAlphanum || c = '+' || c = '-' || c = '_' || c = '.' || c = ':'

/-! ## Numbers -/

/-- The digits behind the first one; an underscore may stand between two digits. -/
def moreDigits? (isDigit : Char → Bool) : List Char → Option (List Char × List Char)
  | [] => some ([], [])
  | '_' :: c :: rest =>
    if isDigit c then (moreDigits? isDigit rest).map fun r => (c :: r.1, r.2) else none
  | ['_'] => none
  | c :: rest =>
    if isDigit c then (moreDigits? isDigit rest).map fun r => (c :: r.1, r.2)
    else some ([], c :: rest)

/-- A run of digits and what follows it. -/
def digits? (isDigit : Char → Bool) : List Char → Option (List Char × List Char)
  | [] => none
  | c :: rest =>
    if isDigit c then (moreDigits? isDigit rest).map fun r => (c :: r.1, r.2) else none

/-- A run of decimal digits without a leading zero. -/
def leadingDigits? : List Char → Option (List Char × List Char)
  | '0' :: rest => some (['0'], rest)
  | other => digits? Char.isDigit other

/-- An integer, if it fits sixty-four bits. -/
def boundedInteger? (n : Int) : Option Toml :=
  if -2 ^ (63 : Nat) ≤ n && n < 2 ^ (63 : Nat) then some (.integer n) else none

/-- A number in another base behind its two leading characters. -/
def based? (base : Nat) (s : List Char) : Option Toml := do
  let isDigit (c : Char) : Bool := (hexDigit? c).any (· < base)
  let (digits, rest) ← digits? isDigit s
  if rest.isEmpty then
    boundedInteger? (digits.foldl (fun n c => base * n + (hexDigit? c).getD 0) 0 : Nat)
  else none

/-- The exponent of a number, which has to end it; without one it is zero. -/
def exponent? : List Char → Option Int
  | [] => some 0
  | c :: rest =>
    if c = 'e' || c = 'E' then do
      let (negative, rest) := Numeral.spanSign rest
      let (digits, rest) ← digits? Char.isDigit rest
      let n : Int := Numeral.ofDigits digits
      if rest.isEmpty then some (if negative then -n else n) else none
    else none

/-- A floating-point number; one that is too large above is refused. -/
def boundedFloat? (x : Double) : Option Toml :=
  if x = .infinity false then none else some (.float x)

/-- A decimal number behind its sign. -/
def decimal? (negative : Bool) (s : List Char) : Option Toml := do
  let (whole, rest) ← leadingDigits? s
  match rest with
  | [] =>
    let n : Int := Numeral.ofDigits whole
    boundedInteger? (if negative then -n else n)
  | '.' :: rest => do
    let (fraction, rest) ← digits? Char.isDigit rest
    let exponent ← exponent? rest
    boundedFloat? (.ofDecimal negative (Numeral.ofDigits (whole ++ fraction))
      (exponent - fraction.length))
  | rest => do
    let exponent ← exponent? rest
    boundedFloat? (.ofDecimal negative (Numeral.ofDigits whole) exponent)

/-- The number a word stands for. -/
def number? : List Char → Option Toml
  | '0' :: 'x' :: rest => based? 16 rest
  | '0' :: 'o' :: rest => based? 8 rest
  | '0' :: 'b' :: rest => based? 2 rest
  | word =>
    let (negative, rest) := Numeral.spanSign word
    if rest = "inf".toList then some (.float (.infinity negative))
    else if rest = "nan".toList then some (.float .nan)
    else decimal? negative rest

/-! ## Dates and times -/

open Calendar (expect?)

/-- A number of two digits, if it is at most `most`. -/
def twoDigits? (most : Nat) (s : List Char) : Option (Nat × List Char) := do
  let (n, rest) ← Calendar.number? 2 2 s
  if n ≤ most then some (n, rest) else none

/-- What follows the date at the start of a text. -/
def date? (s : List Char) : Option (List Char) := do
  let (year, rest) ← Calendar.number? 4 4 s
  let rest ← expect? '-' rest
  let (month, rest) ← twoDigits? 12 rest
  let rest ← expect? '-' rest
  let (day, rest) ← twoDigits? 31 rest
  if 1 ≤ month && 1 ≤ day && day ≤ Calendar.daysIn year month then some rest else none

/-- What follows the time at the start of a text. -/
def time? (s : List Char) : Option (List Char) := do
  let (_, rest) ← twoDigits? 23 s
  let rest ← expect? ':' rest
  let (_, rest) ← twoDigits? 59 rest
  let rest ← expect? ':' rest
  let (_, rest) ← twoDigits? 60 rest
  match rest with
  | '.' :: fraction =>
    if (fraction.head?.any Char.isDigit) then some (fraction.dropWhile Char.isDigit) else none
  | rest => some rest

/-- Whether a text is the offset of a time, or empty. -/
def isOffset : List Char → Bool
  | [] | ['Z'] | ['z'] => true
  | c :: rest =>
    (c = '+' || c = '-') && ((do
      let (_, rest) ← twoDigits? 23 rest
      let rest ← expect? ':' rest
      let (_, rest) ← twoDigits? 59 rest
      some rest.isEmpty : Option Bool).getD false)

/-- Whether a word is a date, with or without a time, or a time. -/
def isMoment (word : List Char) : Bool :=
  match date? word with
  | some [] => true
  | some (c :: rest) =>
    (c = 'T' || c = 't' || c = ' ') && ((time? rest).any isOffset)
  | none => time? word = some []

/-! ## Words -/

/-- The value of a word. -/
def word? (word : List Char) : Option Toml :=
  if word = "true".toList then some (.boolean true)
  else if word = "false".toList then some (.boolean false)
  else if isMoment word then some (.moment (String.ofList word))
  else number? word

/-- Splits off a word.  A date and a time may stand apart by one space. -/
def spanWord (s : List Char) : List Char × List Char :=
  let (word, rest) := s.span isWordChar
  match rest with
  | ' ' :: c :: more =>
    if c.isDigit && date? word = some [] then
      let (time, rest) := (c :: more).span isWordChar
      (word ++ ' ' :: time, rest)
    else (word, rest)
  | _ => (word, rest)

/-- Reads a value that is neither quoted nor bracketed. -/
def scalar? (s : List Char) : Option (Toml × List Char) :=
  let (word, rest) := spanWord s
  (word? word).map fun v => (v, rest)

end RpcBridge.Toml
