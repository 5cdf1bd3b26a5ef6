import RpcBridge.Number.Magnitude

/-!
# Number/Shortest — the fewest digits that read back

A magnitude is written with the fewest decimal digits that read back as the same magnitude, and
among those with the digits nearest to it.  The exact decimal expansion of the magnitude is cut
after 1, 2, 3, … digits; the first cut at which the value just below or just above reads back wins
(`shortest`).  When both do and lie equally far away, a `Tie` decides.
-/

namespace RpcBridge.Number

-- Powers are the ones of the core library, also where an algebraic library is in scope.
attribute [local instance (high)] instPowNat

/-- The number `digits * 10 ^ exponent`. -/
structure Decimal where
  digits : Nat
  exponent : Int
deriving DecidableEq

/-- Which of two equally near decimals is taken. -/
inductive Tie where
  /-- The larger one. -/
  | up
  /-- The one whose last digit is even. -/
  | even
deriving DecidableEq

namespace Decimal

/-- Whether the decimal reads as the magnitude. -/
def readsAs (d : Decimal) (m : Magnitude) : Bool :=
  Magnitude.ofDecimal? d.digits d.exponent == some m

/-- The exact expansion of a magnitude. -/
def exact (m : Magnitude) : Decimal := ⟨m.units * 5 ^ unitExponent, -unitExponent⟩

end Decimal

/-- The decimal with `count` digits that is nearest to the exact value among the two neighbours
that read back, if one of them does; `length` is the number of digits of the expansion. -/
def shortestOf? (tie : Tie) (m : Magnitude) (expansion length count : Nat) : Option Decimal :=
  let step := 10 ^ (length - count)
  let exponent : Int := (length : Int) - count - unitExponent
  let low : Decimal := ⟨expansion / step, exponent⟩
  let high : Decimal := ⟨expansion / step + 1, exponent⟩
  match low.readsAs m, high.readsAs m with
  | true, false => some low
  | false, true => some high
  | false, false => none
  | true, true =>
    let below := expansion % step
    let above := step - below
    if below < above then some low
    else if above < below then some high
    else match tie with
      | .up => some high
      | .even => if low.digits % 2 = 0 then some low else some high

/-- The fewest digits that read back as `m`. Seventeen always suffice; the exact expansion stands
behind them, so that every answer reads back. -/
def shortest (tie : Tie) (m : Magnitude) : Decimal :=
  let exact := Decimal.exact m
  let length := (Nat.toDigits 10 exact.digits).length
  let counts := (List.range 17).map (· + 1)
  (counts.findSome? (shortestOf? tie m exact.digits length)).getD exact

end RpcBridge.Number
