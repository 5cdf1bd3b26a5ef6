import RpcBridge.Number.Layout

/-!
# Json/Number — the numbers of a JSON text

A JSON number is a whole number that fits sixty-four bits, signed or unsigned, or else a finite
binary64 number; the two kinds are told apart, so that `1` and `1.0` are different numbers.

`Number.ofSignificand?` turns the digits of a literal with a fraction, an exponent or too many
digits into a binary64 number.  It keeps as many leading digits as fit sixty-four bits and scales
once by a power of ten, rounding after each step.
-/

namespace RpcBridge

-- Powers are the ones of the core library, also where an algebraic library is in scope.
attribute [local instance (high)] instPowNat

/-- A whole number that fits sixty-four bits, signed or unsigned. -/
structure Whole where
  val : Int
  lower : -2 ^ (63 : Nat) ≤ val
  upper : val < 2 ^ (64 : Nat)
deriving DecidableEq

namespace Whole

/-- The whole number of an integer, if it fits. -/
def ofInt? (n : Int) : Option Whole :=
  if h : -2 ^ (63 : Nat) ≤ n ∧ n < 2 ^ (64 : Nat) then some ⟨n, h.1, h.2⟩ else none

/-- Every signed word is a whole number. -/
def ofInt64 (n : Int64) : Whole :=
  ⟨n.toInt, n.le_toInt, by have := n.toInt_lt; omega⟩

/-- The number as a signed word, if it is one. -/
def toInt64? (n : Whole) : Option Int64 :=
  if n.val < 2 ^ (63 : Nat) then some (Int64.ofInt n.val) else none

end Whole

/-- A JSON number. -/
inductive JsonNumber where
  | whole (n : Whole)
  | real (x : Finite)
deriving DecidableEq

namespace JsonNumber

/-- Sameness of numbers: never across the two kinds. -/
def same : JsonNumber → JsonNumber → Bool
  | .whole m, .whole n => m == n
  | .real x, .real y => x.same y
  | _, _ => false

/-- The number as a signed word, if it is one. -/
def toInt64? : JsonNumber → Option Int64
  | .whole n => n.toInt64?
  | .real _ => none

/-- The number as a binary64 number. -/
def toDouble : JsonNumber → Double
  | .whole n => Double.ofInt n.val
  | .real x => .finite x

/-- The text of the number in a JSON text. -/
def toText : JsonNumber → String
  | .whole n => toString n.val
  | .real x => Number.Layout.json.finiteText x

/-- The leading digits of a literal, as many as fit sixty-four bits, and the power of ten they are
to be scaled by. -/
structure Leading where
  significand : Nat
  exponent : Int
  /-- Whether a digit has been left out, so that no later one may enter. -/
  full : Bool

namespace Leading

/-- Nothing read yet. -/
def empty : Leading := ⟨0, 0, false⟩

/-- The significand with one more digit, if it still fits sixty-four bits. -/
def push? (l : Leading) (digit : Nat) : Option Nat :=
  let next := 10 * l.significand + digit
  if !l.full && next < 2 ^ (64 : Nat) then some next else none

/-- Takes a digit before the point; one that is left out counts as a power of ten. -/
def whole (l : Leading) (digit : Nat) : Leading :=
  match l.push? digit with
  | some next => { l with significand := next }
  | none => { l with exponent := l.exponent + 1, full := true }

/-- Takes a digit behind the point; one that is left out changes nothing. -/
def fraction (l : Leading) (digit : Nat) : Leading :=
  match l.push? digit with
  | some next => { l with significand := next, exponent := l.exponent - 1 }
  | none => { l with full := true }

/-- The leading digits of the digits around a point. -/
def ofDigits (whole fraction : List Nat) : Leading :=
  let l := whole.foldl Leading.whole empty
  fraction.foldl Leading.fraction { l with full := false }

end Leading

/-- Divides by `10 ^ power`, by steps of `10 ^ 308`; `steps` bounds their number. -/
def scaleDown : Nat → Number.Magnitude → Nat → Number.Magnitude
  | 0, m, _ => m
  | steps + 1, m, power =>
    let divide (k : Nat) : Number.Magnitude :=
      ((Number.Magnitude.ofNat? (10 ^ k)).bind m.div?).getD Number.Magnitude.zero
    if power ≤ 308 then divide power
    else if m.val = 0 then m
    else scaleDown steps (divide 308) (power - 308)

/-- Multiplies by `10 ^ power`, unless that leaves the finite numbers. -/
def scaleUp? (m : Number.Magnitude) (power : Nat) : Option Number.Magnitude :=
  if power ≤ 308 then (Number.Magnitude.ofNat? (10 ^ power)).bind m.mul?
  else if m.val = 0 then some m
  else none

/-- The number of a significand scaled by a power of ten, unless it is out of range. -/
def ofSignificand? (negative : Bool) (significand : Nat) (exponent : Int) : Option JsonNumber := do
  let m ← Number.Magnitude.ofNat? significand
  let scaled ←
    if exponent < 0 then
      let power := (-exponent).toNat
      some (scaleDown (power / 308 + 1) m power)
    else scaleUp? m exponent.toNat
  some (.real ⟨negative, scaled⟩)

/-- The number of a binary64 number, if that is finite. -/
def ofDouble? : Double → Option JsonNumber
  | .finite x => some (.real x)
  | _ => none

end JsonNumber

end RpcBridge
