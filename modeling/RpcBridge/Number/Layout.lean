import RpcBridge.Number.Double
import RpcBridge.Number.Shortest

/-!
# Number/Layout — how the digits of a number are written

A layout decides which decimal exponents are written positionally, what is added to a whole
number, and which way a tie between two shortest forms goes.  Two layouts are in use: `Layout.json`
for the numbers of a JSON text and `Layout.plain` for numbers in messages, code and object keys.
-/

namespace RpcBridge.Number

/-- The decisions left open by the shortest digits. -/
structure Layout where
  tie : Tie
  /-- Whether a number whose first digit has this decimal exponent is written positionally. -/
  positional : Int → Bool
  /-- What follows the digits of a whole number that is written positionally. -/
  wholeEnding : String

namespace Layout

/-- In a JSON text numbers are positional from `10 ^ (-5)` to below `10 ^ 16`, and a whole number
keeps one decimal place. -/
def json : Layout := ⟨.even, fun e => -5 ≤ e && e < 16, ".0"⟩

/-- In a message every number is positional, and a whole number has no point. -/
def plain : Layout := ⟨.up, fun _ => true, ""⟩

/-- A run of zeros. -/
def zeros (n : Nat) : List Char := List.replicate n '0'

/-- Digits with the decimal point after `point` of them; `point` may lie outside the digits. -/
def positionalText (layout : Layout) (digits : List Char) (point : Int) : String :=
  if point ≤ 0 then "0." ++ String.ofList (zeros (-point).toNat ++ digits)
  else
    let whole := point.toNat
    if digits.length ≤ whole then
      String.ofList (digits ++ zeros (whole - digits.length)) ++ layout.wholeEnding
    else String.ofList (digits.take whole ++ '.' :: digits.drop whole)

/-- Digits with one of them before the point, and the exponent, sign included, behind an `e`. -/
def exponentText (digits : List Char) (exponent : Int) : String :=
  let mantissa := match digits with
    | d :: rest@(_ :: _) => d :: '.' :: rest
    | other => other
  let sign := if exponent < 0 then "e-" else "e+"
  String.ofList mantissa ++ sign ++ toString exponent.natAbs

/-- The text of a positive decimal, trailing zeros dropped. -/
def decimalText (layout : Layout) (d : Decimal) : String :=
  let all := Nat.toDigits 10 d.digits
  let digits := (all.reverse.dropWhile (· == '0')).reverse
  let point := (all.length : Int) + d.exponent
  if layout.positional (point - 1) then layout.positionalText digits point
  else exponentText digits (point - 1)

/-- The text of a finite number. -/
def finiteText (layout : Layout) (x : Finite) : String :=
  let sign := if x.negative then "-" else ""
  sign ++ if x.isZero then "0" ++ layout.wholeEnding
    else layout.decimalText (shortest layout.tie x.magnitude)

/-- The text of a number. -/
def doubleText (layout : Layout) : Double → String
  | .finite x => layout.finiteText x
  | .infinity false => "inf"
  | .infinity true => "-inf"
  | .nan => "NaN"

end Layout

end RpcBridge.Number

namespace RpcBridge.Double

/-- The number as messages and generated code show it. -/
def toText (x : Double) : String := Number.Layout.plain.doubleText x

end RpcBridge.Double
