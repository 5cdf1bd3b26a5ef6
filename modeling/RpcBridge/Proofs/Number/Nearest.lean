import RpcBridge.Number.Double

/-!
# Proofs/Number/Nearest — rounding sees the value only

The nearest magnitude to a fraction depends on its value: numerator and denominator may be scaled
together.  It follows that a decimal may be written with more zeros and a smaller exponent, because
the two answers that are given without rounding are the right ones.

* `nearestRank_mul` — rounding a fraction that is not in lowest terms;
* `Magnitude.ofNat?_isSome` — whole numbers of sixty-four bits are finite;
* `Magnitude.ofDecimal?_scale` — a decimal with more zeros is the same number.
-/

namespace RpcBridge.Number

-- Powers are the ones of the core library, also where an algebraic library is in scope.
attribute [local instance (high)] instPowNat

/-! ## Rounding a fraction -/

theorem roundQuotient_mul_mul (num den : Nat) {c : Nat} (h : 0 < c) :
    roundQuotient (num * c) (den * c) = roundQuotient num den := by
  have quotient : num * c / (den * c) = num / den := Nat.mul_div_mul_right _ _ h
  have remainder : 2 * (num * c % (den * c)) = 2 * (num % den) * c := by
    rw [Nat.mul_mod_mul_right, Nat.mul_assoc]
  simp only [roundQuotient, quotient, remainder, Nat.mul_lt_mul_right h]

/-- **Rounding sees the value of a fraction only.** -/
theorem nearestRank_mul (num den : Nat) {c : Nat} (h : 0 < c) :
    nearestRank (num * c) (den * c) = nearestRank num den := by
  have quotient : num * c / (den * c) = num / den := Nat.mul_div_mul_right _ _ h
  simp only [nearestRank, quotient, Nat.mul_right_comm den c, roundQuotient_mul_mul _ _ h]

theorem roundQuotient_bounds (num den : Nat) :
    num / den ≤ roundQuotient num den ∧ roundQuotient num den ≤ num / den + 1 := by
  simp only [roundQuotient]
  split
  · omega
  · split <;> omega

/-- The rank of a fraction lies in its binade, or starts the next one. -/
theorem nearestRank_bounds {num den : Nat} (large : 2 ^ (52 : Nat) ≤ num / den) :
    (Nat.log2 (num / den) - 51) * binade ≤ nearestRank num den ∧
      nearestRank num den ≤ (Nat.log2 (num / den) - 50) * binade := by
  obtain ⟨q, hq⟩ : ∃ q, q = num / den := ⟨_, rfl⟩
  obtain ⟨L, hL⟩ : ∃ L, L = Nat.log2 q := ⟨_, rfl⟩
  have positive : q ≠ 0 := by omega
  obtain ⟨low, high⟩ := (Nat.log2_eq_iff positive).1 hL.symm
  have bits : 52 ≤ L := hL ▸ (Nat.le_log2 positive).2 (hq ▸ large)
  have rounded := roundQuotient_bounds num (den * 2 ^ (L - 52))
  rw [← Nat.div_div_eq_div_mul, ← hq] at rounded
  have least : 2 ^ (52 : Nat) ≤ q / 2 ^ (L - 52) := by
    rw [Nat.le_div_iff_mul_le (Nat.two_pow_pos _), ← Nat.pow_add, Nat.add_sub_cancel' bits]
    exact low
  have most : q / 2 ^ (L - 52) < 2 ^ (53 : Nat) := by
    rw [Nat.div_lt_iff_lt_mul (Nat.two_pow_pos _), ← Nat.pow_add,
      show 53 + (L - 52) = L + 1 by omega]
    exact high
  simp only [nearestRank, ← hq, ← hL]
  unfold binade
  omega

namespace Magnitude

/-- A factor of ten is more than three of two. -/
theorem two_pow_le_ten_pow {a b : Nat} (h : a ≤ 3 * b) : 2 ^ a ≤ 10 ^ b :=
  calc 2 ^ a ≤ 2 ^ (3 * b) := Nat.pow_le_pow_right (by decide) h
    _ = 8 ^ b := by rw [Nat.pow_mul]
    _ ≤ 10 ^ b := Nat.pow_le_pow_left (by decide) b

/-- A fraction of very many digits is too large. -/
theorem nearest?_eq_none {num den places : Nat} (many : 1024 ≤ 3 * places)
    (h : 10 ^ places * 2 ^ unitExponent ≤ num / den) : nearest? num den = none := by
  obtain ⟨q, hq⟩ : ∃ q, q = num / den := ⟨_, rfl⟩
  obtain ⟨top, htop⟩ : ∃ n, n = 1024 := ⟨_, rfl⟩
  rw [← htop] at many
  have enough : 2 ^ (top + unitExponent) ≤ q := by
    rw [Nat.pow_add, hq]
    exact Nat.le_trans (Nat.mul_le_mul_right _ (two_pow_le_ten_pow many)) h
  have positive : q ≠ 0 := Nat.ne_of_gt (Nat.lt_of_lt_of_le (Nat.two_pow_pos _) enough)
  have bits : top + unitExponent ≤ Nat.log2 q := (Nat.le_log2 positive).2 enough
  have large : 2 ^ (52 : Nat) ≤ q :=
    Nat.le_trans (Nat.pow_le_pow_right (by decide) (by unfold unitExponent; omega)) enough
  have := (nearestRank_bounds (hq ▸ large)).1
  rw [nearest?, dif_neg]
  rw [← hq] at this
  unfold binade at this
  unfold rankCount
  unfold unitExponent at bits
  omega

/-- A fraction below half a unit is nearest to zero. -/
theorem nearest?_eq_zero {num den : Nat} (h : 2 * num < den) : nearest? num den = some zero := by
  have quotient : num / den = 0 := Nat.div_eq_of_lt (by omega)
  have remainder : num % den = num := Nat.mod_eq_of_lt (by omega)
  have rank : nearestRank num den = 0 := by
    have log : Nat.log2 0 = 0 := by decide
    simp [nearestRank, quotient, log, roundQuotient, remainder, h]
  simp only [nearest?, rank]
  rfl

/-- **Whole numbers of sixty-four bits are finite.** -/
theorem ofNat?_isSome {n : Nat} (h : n ≤ 2 ^ (64 : Nat)) : (ofNat? n).isSome = true := by
  have rank : nearestRank (n * 2 ^ unitExponent) 1 < rankCount := by
    rcases Nat.eq_zero_or_pos n with rfl | positive
    · rw [Nat.zero_mul]
      decide
    · obtain ⟨units, hunits⟩ : ∃ u, u = n * 2 ^ unitExponent / 1 := ⟨_, rfl⟩
      have large : 2 ^ (52 : Nat) ≤ units := by
        rw [hunits, Nat.div_one]
        exact Nat.le_trans (Nat.pow_le_pow_right (by decide) (by decide))
          (Nat.le_mul_of_pos_left _ positive)
      have small : Nat.log2 units < 65 + unitExponent := by
        obtain ⟨k, hk⟩ : ∃ k, k = 2 ^ unitExponent := ⟨_, rfl⟩
        have : 0 < k := hk ▸ Nat.two_pow_pos _
        rw [Nat.log2_lt (by omega), hunits, Nat.div_one, Nat.pow_add, ← hk]
        refine Nat.lt_of_le_of_lt (Nat.mul_le_mul_right _ h) ?_
        omega
      have := (nearestRank_bounds (hunits ▸ large)).2
      rw [← hunits] at this
      unfold rankCount
      unfold unitExponent at small
      unfold binade at this
      omega
  simp only [ofNat?, nearest?, dif_pos rank, Option.isSome_some]

/-! ## Decimals -/

/-- The magnitude nearest to `digits * 10 ^ exponent`, the power written out. -/
def nearestDecimal? (digits : Nat) (exponent : Int) : Option Magnitude :=
  nearest? (digits * 10 ^ exponent.toNat * 2 ^ unitExponent) (10 ^ (-exponent).toNat)

/-- The answers that are given without rounding are the right ones. -/
theorem ofDecimal?_eq {digits : Nat} (positive : 0 < digits) (exponent : Int) :
    ofDecimal? digits exponent = nearestDecimal? digits exponent := by
  have nonzero : digits ≠ 0 := Nat.ne_of_gt positive
  have low : 2 ^ Nat.log2 digits ≤ digits := Nat.log2_self_le nonzero
  have high : digits < 2 ^ (Nat.log2 digits + 1) := Nat.lt_log2_self
  obtain ⟨L, hL⟩ : ∃ L, L = Nat.log2 digits := ⟨_, rfl⟩
  rw [← hL] at low high
  simp only [ofDecimal?, if_neg nonzero, ← hL]
  split
  case isTrue large =>
    -- a digit of a decimal takes four bits at most
    have least : 10 ^ (L / 4) ≤ digits := by
      calc 10 ^ (L / 4) ≤ 16 ^ (L / 4) := Nat.pow_le_pow_left (by decide) _
        _ = 2 ^ (4 * (L / 4)) := by rw [Nat.pow_mul]
        _ ≤ 2 ^ L := Nat.pow_le_pow_right (by decide) (by omega)
        _ ≤ digits := low
    obtain ⟨places, hplaces⟩ : ∃ n, n = 401 := ⟨_, rfl⟩
    have enough : 10 ^ places * 10 ^ (-exponent).toNat ≤ digits * 10 ^ exponent.toNat := by
      calc 10 ^ places * 10 ^ (-exponent).toNat = 10 ^ (places + (-exponent).toNat) := by
            rw [Nat.pow_add]
        _ ≤ 10 ^ (L / 4 + exponent.toNat) := Nat.pow_le_pow_right (by decide) (by omega)
        _ = 10 ^ (L / 4) * 10 ^ exponent.toNat := by rw [Nat.pow_add]
        _ ≤ digits * 10 ^ exponent.toNat := Nat.mul_le_mul_right _ least
    refine (nearest?_eq_none (show 1024 ≤ 3 * places by omega) ?_).symm
    rw [Nat.le_div_iff_mul_le (Nat.pow_pos (by decide)), Nat.mul_right_comm]
    exact Nat.mul_le_mul_right _ enough
  case isFalse =>
    split
    case isTrue small =>
      have whole : exponent.toNat = 0 := by omega
      refine (nearest?_eq_zero ?_).symm
      rw [whole, Nat.pow_zero, Nat.mul_one, ← Nat.mul_assoc, Nat.mul_comm 2]
      calc digits * 2 * 2 ^ unitExponent
          < 2 ^ (L + 1) * 2 * 2 ^ unitExponent :=
            Nat.mul_lt_mul_of_pos_right (Nat.mul_lt_mul_of_pos_right high (by decide))
              (Nat.two_pow_pos _)
        _ = 2 ^ (L + 2 + unitExponent) := by rw [← Nat.pow_succ, ← Nat.pow_add]
        _ ≤ 10 ^ (L + 402) := two_pow_le_ten_pow (by unfold unitExponent; omega)
        _ ≤ 10 ^ (-exponent).toNat := Nat.pow_le_pow_right (by decide) (by omega)
    case isFalse =>
      split
      case isTrue whole =>
        rw [nearestDecimal?, show (-exponent).toNat = 0 by omega, Nat.pow_zero]
      case isFalse fraction =>
        rw [nearestDecimal?, show exponent.toNat = 0 by omega, Nat.pow_zero, Nat.mul_one]

theorem nearest?_mul (num den : Nat) {c : Nat} (h : 0 < c) :
    nearest? (num * c) (den * c) = nearest? num den := by
  simp only [nearest?, nearestRank_mul num den h]

/-- **A decimal with more zeros is the same number.** -/
theorem ofDecimal?_scale (digits : Nat) (exponent : Int) (zeros : Nat) :
    ofDecimal? (digits * 10 ^ zeros) (exponent - zeros) = ofDecimal? digits exponent := by
  rcases Nat.eq_zero_or_pos digits with rfl | positive
  · simp only [Nat.zero_mul, ofDecimal?, if_true]
  · have power (n : Nat) : 0 < 10 ^ n := Nat.pow_pos (by decide)
    rw [ofDecimal?_eq positive, ofDecimal?_eq (Nat.mul_pos positive (power zeros)),
      nearestDecimal?, nearestDecimal?]
    -- both are the same fraction in lower terms, with the powers of ten that they share
    obtain ⟨up, hup⟩ : ∃ n, n = exponent.toNat := ⟨_, rfl⟩
    obtain ⟨down, hdown⟩ : ∃ n, n = (-exponent).toNat := ⟨_, rfl⟩
    obtain ⟨up', hup'⟩ : ∃ n, n = (exponent - zeros).toNat := ⟨_, rfl⟩
    obtain ⟨down', hdown'⟩ : ∃ n, n = (-(exponent - zeros)).toNat := ⟨_, rfl⟩
    rw [← hup, ← hdown, ← hup', ← hdown']
    obtain ⟨unit, hunit⟩ : ∃ u, u = 2 ^ unitExponent := ⟨_, rfl⟩
    rw [← hunit]
    have powers : 10 ^ zeros * 10 ^ up' * 10 ^ down = 10 ^ up * 10 ^ down' := by
      rw [← Nat.pow_add, ← Nat.pow_add, ← Nat.pow_add, show zeros + up' + down = up + down' by omega]
    have numerators : digits * 10 ^ zeros * 10 ^ up' * unit * 10 ^ down =
        digits * 10 ^ up * unit * 10 ^ down' := by
      calc digits * 10 ^ zeros * 10 ^ up' * unit * 10 ^ down
          = digits * (10 ^ zeros * 10 ^ up' * 10 ^ down) * unit := by ac_rfl
        _ = digits * 10 ^ up * unit * 10 ^ down' := by rw [powers]; ac_rfl
    rw [← nearest?_mul _ _ (power down), ← nearest?_mul (digits * 10 ^ up * _) _ (power down'),
      numerators, Nat.mul_comm (10 ^ down')]

end Magnitude

/-- The number nearest to a whole number of sixty-four bits is finite. -/
theorem exists_finite_ofInt {n : Int} (h : n.natAbs ≤ 2 ^ (64 : Nat)) :
    ∃ x, Double.ofInt n = .finite x := by
  obtain ⟨m, hm⟩ := Option.isSome_iff_exists.1 (Magnitude.ofNat?_isSome h)
  exact ⟨_, by rw [Double.ofInt, hm, Double.ofMagnitude]⟩

end RpcBridge.Number
