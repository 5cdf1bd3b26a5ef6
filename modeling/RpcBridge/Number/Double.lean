import RpcBridge.Number.Magnitude

/-!
# Number/Double — binary64 numbers

A binary64 number is a finite number with a sign, one of the two infinities, or not a number.
Finite numbers have a type of their own (`Finite`), because a JSON number is always finite.

Two notions of sameness live side by side: `=` tells every two numbers apart, also the two zeros,
while `Double.same` is the comparison of floating-point arithmetic, where the zeros agree and
not-a-number agrees with nothing.
-/

namespace RpcBridge

open Number

/-- A finite binary64 number: a sign and a magnitude.  Both zeros are numbers of their own. -/
structure Finite where
  negative : Bool
  magnitude : Magnitude
deriving DecidableEq

/-- A binary64 number. -/
inductive Double where
  | nan
  | infinity (negative : Bool)
  | finite (x : Finite)
deriving DecidableEq

namespace Finite

/-- Positive zero. -/
def zero : Finite := ⟨false, Magnitude.zero⟩

/-- Whether the number is one of the two zeros. -/
def isZero (x : Finite) : Bool := x.magnitude.val == 0

/-- Floating-point comparison of finite numbers: the zeros agree. -/
def same (x y : Finite) : Bool := x == y || (x.isZero && y.isZero)

end Finite

namespace Double

/-- The number of a sign and a rounded magnitude; a magnitude that is too large is infinite. -/
def ofMagnitude (negative : Bool) : Option Magnitude → Double
  | some m => .finite ⟨negative, m⟩
  | none => .infinity negative

/-- The number nearest to an integer. -/
def ofInt (n : Int) : Double := ofMagnitude (n < 0) (Magnitude.ofNat? n.natAbs)

/-- The number nearest to `±digits * 10 ^ exponent`. -/
def ofDecimal (negative : Bool) (digits : Nat) (exponent : Int) : Double :=
  ofMagnitude negative (Magnitude.ofDecimal? digits exponent)

/-- Floating-point comparison. -/
def same : Double → Double → Bool
  | .finite x, .finite y => x.same y
  | .infinity s, .infinity t => s == t
  | _, _ => false

/-- The number, if it is finite. -/
def toFinite? : Double → Option Finite
  | .finite x => some x
  | _ => none

end Double

end RpcBridge
