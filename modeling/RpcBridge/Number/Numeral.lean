import RpcBridge.Number.Double

/-!
# Number/Numeral — numbers as people write them

The generous number grammar of object keys and of numbers given as text: a sign may stand in
front, leading zeros are fine, a fraction may miss the digits on one side of its point, and the
words `inf`, `infinity` and `nan` are read in any case.
-/

namespace RpcBridge.Numeral

/-- The value of a digit. -/
def digitValue (c : Char) : Nat := c.toNat - '0'.toNat

/-- The number written by a run of digits. -/
def ofDigits (digits : List Char) : Nat := digits.foldl (fun n c => 10 * n + digitValue c) 0

/-- Splits off a run of digits. -/
def spanDigits (s : List Char) : List Char × List Char := s.span Char.isDigit

/-- Splits off a sign; the answer is whether it was a minus. -/
def spanSign : List Char → Bool × List Char
  | '+' :: rest => (false, rest)
  | '-' :: rest => (true, rest)
  | rest => (false, rest)

/-- A whole number with an optional sign. -/
def int? (s : List Char) : Option Int :=
  let (negative, digits) := spanSign s
  if digits.isEmpty || !digits.all Char.isDigit then none
  else
    let n : Int := ofDigits digits
    some (if negative then -n else n)

/-- The exponent part of a numeral, which has to end it. -/
def exponent? : List Char → Option Int
  | [] => some 0
  | c :: rest => if c == 'e' || c == 'E' then int? rest else none

/-- A numeral without its sign. -/
def unsigned? (negative : Bool) (s : List Char) : Option Double :=
  let word := s.map Char.toLower
  if word == "inf".toList || word == "infinity".toList then some (.infinity negative)
  else if word == "nan".toList then some .nan
  else
    let (whole, rest) := spanDigits s
    let (fraction, rest) := match rest with
      | '.' :: more => spanDigits more
      | other => ([], other)
    if whole.isEmpty && fraction.isEmpty then none
    else do
      let exponent ← exponent? rest
      some (Double.ofDecimal negative (ofDigits (whole ++ fraction)) (exponent - fraction.length))

end RpcBridge.Numeral

namespace RpcBridge

/-- Reads a number, rounding it to the nearest. -/
def Double.ofNumeral? (text : String) : Option Double :=
  let (negative, rest) := Numeral.spanSign text.toList
  Numeral.unsigned? negative rest

end RpcBridge
