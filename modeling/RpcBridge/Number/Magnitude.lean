/-!
# Number/Magnitude — the finite magnitudes of a binary64 number

A finite magnitude is named by its *rank*: its place in the increasing list of all finite
magnitudes, counted from zero.  Ranks below `2 ^ 52` are the subnormal magnitudes, every further
block of `2 ^ 52` ranks is one binade, and the last binade ends before `rankCount`.

Every magnitude is a whole number of *units*, the smallest positive magnitude `2 ^ (-1074)`
(`unitsOfRank`), so all arithmetic is exact arithmetic on natural numbers followed by one rounding
(`nearestRank`).  Main statement: a magnitude is its own nearest neighbour, `nearestRank_units`.
-/

namespace RpcBridge.Number

-- Powers are the ones of the core library, also where an algebraic library is in scope.
attribute [local instance (high)] instPowNat

/-- How many ranks one binade holds. -/
def binade : Nat := 2 ^ (52 : Nat)

/-- The number of finite magnitudes. -/
def rankCount : Nat := 2047 * 2 ^ (52 : Nat)

/-- The exponent of the unit: every magnitude is a whole multiple of `2 ^ (-unitExponent)`. -/
def unitExponent : Nat := 1074

/-- The magnitude of a rank, in units. -/
def unitsOfRank (rank : Nat) : Nat :=
  if rank < binade then rank
  else (binade + rank % binade) * 2 ^ (rank / binade - 1)

/-- A quotient rounded to the nearest whole number, a tie going to the even neighbour. -/
def roundQuotient (num den : Nat) : Nat :=
  let q := num / den
  let twice := 2 * (num % den)
  if twice < den then q
  else if den < twice then q + 1
  else q + q % 2

/-- The rank nearest to the magnitude `num / den` units, a tie going to the even rank.  The answer
is not bounded: a rank of at least `rankCount` stands for a magnitude that is too large. -/
def nearestRank (num den : Nat) : Nat :=
  let shift := Nat.log2 (num / den) - 52
  shift * binade + roundQuotient num (den * 2 ^ shift)

/-- A whole quotient needs no rounding. -/
theorem roundQuotient_mul (m : Nat) {den : Nat} (h : 0 < den) :
    roundQuotient (m * den) den = m := by
  simp [roundQuotient, Nat.mul_mod_left, Nat.mul_div_cancel _ h, h]

theorem log2_mul_two_pow {m k : Nat} (e : Nat) (low : 2 ^ k ≤ m) (high : m < 2 ^ (k + 1)) :
    Nat.log2 (m * 2 ^ e) = k + e := by
  have positive : 0 < 2 ^ e := Nat.two_pow_pos e
  have nonzero : m * 2 ^ e ≠ 0 :=
    Nat.ne_of_gt (Nat.mul_pos (Nat.lt_of_lt_of_le (Nat.two_pow_pos k) low) positive)
  refine (Nat.log2_eq_iff nonzero).2 ⟨?_, ?_⟩
  · rw [Nat.pow_add]
    exact Nat.mul_le_mul_right _ low
  · rw [Nat.add_right_comm, Nat.pow_add]
    exact Nat.mul_lt_mul_of_pos_right high positive

/-- **A magnitude is its own nearest neighbour.** -/
theorem nearestRank_units (rank : Nat) : nearestRank (unitsOfRank rank) 1 = rank := by
  unfold unitsOfRank
  split
  · next small =>
    have shift : Nat.log2 (rank / 1) - 52 = 0 := by
      rcases Nat.eq_zero_or_pos rank with rfl | positive
      · rfl
      · have := (Nat.log2_lt (Nat.ne_of_gt positive)).2 small
        rw [Nat.div_one]
        omega
    have := roundQuotient_mul rank Nat.one_pos
    simp_all [nearestRank]
  · next large =>
    have below : rank % binade < binade := Nat.mod_lt _ (by decide)
    have low : 2 ^ (52 : Nat) ≤ binade + rank % binade := Nat.le_add_right _ _
    have high : binade + rank % binade < 2 ^ (52 + 1) := by
      unfold binade at below ⊢
      omega
    have shift : Nat.log2 ((binade + rank % binade) * 2 ^ (rank / binade - 1) / 1) - 52 =
        rank / binade - 1 := by
      rw [Nat.div_one, log2_mul_two_pow _ low high, Nat.add_sub_cancel_left]
    have quotient := roundQuotient_mul (binade + rank % binade)
      (Nat.two_pow_pos (rank / binade - 1))
    simp only [nearestRank, shift, Nat.one_mul, quotient]
    have := Nat.div_add_mod rank binade
    unfold binade at *
    omega

/-- A finite magnitude. -/
abbrev Magnitude := Fin rankCount

namespace Magnitude

/-- The magnitude in units. -/
def units (m : Magnitude) : Nat := unitsOfRank m.val

/-- The magnitude zero. -/
def zero : Magnitude := ⟨0, by decide⟩

/-- The magnitude nearest to `num / den` units, if it is not too large. -/
def nearest? (num den : Nat) : Option Magnitude :=
  if h : nearestRank num den < rankCount then some ⟨_, h⟩ else none

/-- The magnitude nearest to a natural number. -/
def ofNat? (n : Nat) : Option Magnitude := nearest? (n * 2 ^ unitExponent) 1

/-- The rounded product of two magnitudes. -/
def mul? (a b : Magnitude) : Option Magnitude := nearest? (a.units * b.units) (2 ^ unitExponent)

/-- The rounded quotient of two magnitudes; the divisor is meant to be positive. -/
def div? (a b : Magnitude) : Option Magnitude := nearest? (a.units * 2 ^ unitExponent) b.units

/-- The magnitude nearest to `digits * 10 ^ exponent`.  Exponents that are out of every reach are
settled without writing the power out. -/
def ofDecimal? (digits : Nat) (exponent : Int) : Option Magnitude :=
  if digits = 0 then some zero
  else
    let size : Int := (Nat.log2 digits : Int) / 4
    if exponent + size > 400 then none
    else if exponent + (Nat.log2 digits : Int) + 1 < -400 then some zero
    else if 0 ≤ exponent then nearest? (digits * 10 ^ exponent.toNat * 2 ^ unitExponent) 1
    else nearest? (digits * 2 ^ unitExponent) (10 ^ (-exponent).toNat)

end Magnitude

end RpcBridge.Number
