import Mathlib.Data.List.TakeDrop
import RpcBridge.Number.Layout
import RpcBridge.Number.Numeral
import RpcBridge.Proofs.Number.Nearest

/-!
# Proofs/Number/Numeral — numbers are read back from their digits

A whole number is read back from its digits.  A finite number is written with digits that read back
(`Decimal.readsAs_shortest`), and in whichever way the layout arranges them, a point, zeros and an
exponent added, the reader puts the same decimal together again; that it may see more zeros than the
writer had does not matter, since rounding sees the value only.

* `Numeral.int?_toString` — whole numbers;
* `Double.ofNumeral?_finiteText` — finite numbers, in the layout of a JSON text.
-/

namespace RpcBridge

-- Powers are the ones of the core library, also where an algebraic library is in scope.
attribute [local instance (high)] instPowNat

namespace Numeral

/-! ## Whole numbers -/

theorem isDigit_toDigits (n : Nat) : (Nat.toDigits 10 n).all Char.isDigit = true :=
  List.all_eq_true.2 fun _ hc => Nat.isDigit_of_mem_toDigits (by decide) (by decide) hc

/-- The decimal digits of a number denote it. -/
theorem ofDigits_toDigits (n : Nat) : ofDigits (Nat.toDigits 10 n) = n := by
  have := Nat.ofDigitChars_ten_toDigits (n := n)
  simpa [ofDigits, Nat.ofDigitChars, digitValue] using this

theorem isEmpty_toDigits (n : Nat) : (Nat.toDigits 10 n).isEmpty = false := by
  have : 0 < (Nat.toDigits 10 n).length := Nat.length_toDigits_pos
  cases h : Nat.toDigits 10 n with
  | nil => simp [h] at this
  | cons => rfl

/-- Digits carry no sign. -/
theorem spanSign_of_isDigit {s : List Char} (h : s.all Char.isDigit = true) :
    spanSign s = (false, s) := by
  unfold spanSign
  split
  · simp [Char.isDigit] at h
  · simp [Char.isDigit] at h
  · rfl

/-- A negative number is written as a minus sign and its digits. -/
theorem toList_toString_negSucc (n : Nat) :
    (toString (Int.negSucc n)).toList = '-' :: Nat.toDigits 10 (n + 1) := by
  show ("-" ++ Nat.repr (n + 1)).toList = _
  rw [String.toList_append, Nat.toList_repr]
  rfl

/-- **A whole number is read back from its digits.** -/
theorem int?_toString (n : Int) : int? (toString n).toList = some n := by
  cases n with
  | ofNat n =>
    have text : (toString (Int.ofNat n)).toList = Nat.toDigits 10 n := Nat.toList_repr
    simp only [text, int?, spanSign_of_isDigit (isDigit_toDigits n), isEmpty_toDigits,
      isDigit_toDigits, ofDigits_toDigits, Bool.not_true, Bool.or_self, Bool.false_eq_true,
      if_false]
    rfl
  | negSucc n =>
    simp only [toList_toString_negSucc, int?, spanSign, isEmpty_toDigits, isDigit_toDigits, ofDigits_toDigits,
      Bool.not_true, Bool.or_self, Bool.false_eq_true, if_false, if_true]
    rfl

/-! ## Runs of digits -/

theorem ofDigits_eq (s : List Char) : ofDigits s = Nat.ofDigitChars 10 s 0 := rfl

/-- Appended zeros multiply by a power of ten. -/
theorem ofDigits_append_zeros (s : List Char) (n : Nat) :
    ofDigits (s ++ List.replicate n '0') = ofDigits s * 10 ^ n := by
  rw [ofDigits_eq, Nat.ofDigitChars_append, Nat.ofDigitChars_replicate_zero, ofDigits_eq,
    Nat.mul_comm]

/-- Zeros in front change nothing. -/
theorem ofDigits_zeros_append (n : Nat) (s : List Char) :
    ofDigits (List.replicate n '0' ++ s) = ofDigits s := by
  rw [ofDigits_eq, Nat.ofDigitChars_append, Nat.ofDigitChars_replicate_zero, Nat.mul_zero,
    ofDigits_eq]

/-- The digits in front of a text are split off where something else follows. -/
theorem spanDigits_append {digits rest : List Char} (all : ∀ c ∈ digits, c.isDigit = true)
    (stops : ∀ c ∈ rest.head?, c.isDigit = false) :
    spanDigits (digits ++ rest) = (digits, rest) := by
  have none : rest.takeWhile Char.isDigit = [] ∧ rest.dropWhile Char.isDigit = rest := by
    cases rest with
    | nil => exact ⟨rfl, rfl⟩
    | cons c rest =>
      have : c.isDigit = false := stops c rfl
      simp [this]
  rw [spanDigits, List.span_eq_takeWhile_dropWhile, List.takeWhile_append_of_pos all,
    List.dropWhile_append_of_pos all, none.1, none.2, List.append_nil]

/-- What may follow the digits of a numeral. -/
theorem isDigit_head_exponent {tail : List Char} {exponent : Int}
    (h : exponent? tail = some exponent) : ∀ c ∈ tail.head?, c.isDigit = false := by
  cases tail with
  | nil => exact nofun
  | cons c rest =>
    rintro _ ⟨⟩
    rw [exponent?] at h
    split at h
    · next mark =>
      rw [Bool.or_eq_true, beq_iff_eq, beq_iff_eq] at mark
      rcases mark with rfl | rfl <;> rfl
    · cases h

/-- What starts with a digit is no word. -/
theorem ne_word_of_isDigit {c : Char} (digit : c.isDigit = true) (rest : List Char) {d : Char}
    (word : List Char) (letter : d.isDigit = false) :
    ((c :: rest).map Char.toLower == d :: word) = false := by
  have lower : c.toLower = c := by
    simp only [Char.isDigit, Bool.and_eq_true, decide_eq_true_eq] at digit
    refine dif_neg ?_
    rintro ⟨capital, -⟩
    exact absurd (UInt32.le_trans capital digit.2) (by decide)
  rw [beq_eq_false_iff_ne, List.map_cons, lower]
  rintro same
  obtain rfl := (List.cons.inj same).1
  cases digit.symm.trans letter

section Parts

variable (negative : Bool) {whole fraction tail : List Char} {exponent : Int}

/-- What starts with a digit is read as a number. -/
theorem unsigned?_of_isDigit (nonempty : whole ≠ []) (digits : ∀ c ∈ whole, c.isDigit = true)
    (stops : ∀ c ∈ tail.head?, c.isDigit = false) : unsigned? negative (whole ++ tail) =
      (let (fraction, rest) := match tail with
        | '.' :: more => spanDigits more
        | other => ([], other)
      do
        let exponent ← exponent? rest
        some (Double.ofDecimal negative (ofDigits (whole ++ fraction))
          (exponent - fraction.length))) := by
  obtain ⟨c, rest, rfl⟩ := List.exists_cons_of_ne_nil nonempty
  have digit := digits c (List.mem_cons_self ..)
  have inf := ne_word_of_isDigit digit (rest ++ tail) "nf".toList (d := 'i') rfl
  have infinity := ne_word_of_isDigit digit (rest ++ tail) "nfinity".toList (d := 'i') rfl
  have nan := ne_word_of_isDigit digit (rest ++ tail) "an".toList (d := 'n') rfl
  change (_ == "inf".toList) = false at inf
  change (_ == "infinity".toList) = false at infinity
  change (_ == "nan".toList) = false at nan
  rw [← List.cons_append] at inf infinity nan
  unfold unsigned?
  dsimp only
  rw [inf, infinity, nan, spanDigits_append digits stops]
  rfl

end Parts

/-- A text without a sign that is read as `digits * 10 ^ exponent`. -/
structure Writes (s : List Char) (digits : Nat) (exponent : Int) : Prop where
  unsigned : spanSign s = (false, s)
  value : ∀ negative, unsigned? negative s = some (Double.ofDecimal negative digits exponent)

/-- A text of digits has no sign. -/
theorem spanSign_append {whole : List Char} (nonempty : whole ≠ [])
    (digits : ∀ c ∈ whole, c.isDigit = true) (tail : List Char) :
    spanSign (whole ++ tail) = (false, whole ++ tail) := by
  obtain ⟨c, rest, rfl⟩ := List.exists_cons_of_ne_nil nonempty
  have digit := digits c (List.mem_cons_self ..)
  rw [List.cons_append]
  unfold spanSign
  split
  · next h =>
    cases h
    cases digit
  · next h =>
    cases h
    cases digit
  · rfl

/-- A numeral without a point, and behind its digits an exponent at most. -/
theorem writes_append {whole tail : List Char} {exponent : Int} (nonempty : whole ≠ [])
    (digits : ∀ c ∈ whole, c.isDigit = true) (read : exponent? tail = some exponent) :
    Writes (whole ++ tail) (ofDigits whole) exponent := by
  refine ⟨spanSign_append nonempty digits tail, fun negative => ?_⟩
  rw [unsigned?_of_isDigit negative nonempty digits (isDigit_head_exponent read)]
  split
  next fraction rest parts =>
    split at parts
    · simp [exponent?] at read
    · cases parts
      simp [read]

/-- **A numeral is read part by part**: the digits in front of the point, those behind it, and the
exponent. -/
theorem writes_point {whole fraction tail : List Char} {exponent : Int} (nonempty : whole ≠ [])
    (digits : ∀ c ∈ whole, c.isDigit = true) (digits' : ∀ c ∈ fraction, c.isDigit = true)
    (read : exponent? tail = some exponent) : Writes (whole ++ '.' :: (fraction ++ tail))
      (ofDigits (whole ++ fraction)) (exponent - fraction.length) := by
  refine ⟨spanSign_append nonempty digits _, fun negative => ?_⟩
  have stops : ∀ c ∈ ('.' :: (fraction ++ tail)).head?, c.isDigit = false := by
    rintro _ ⟨⟩
    rfl
  rw [unsigned?_of_isDigit negative nonempty digits stops]
  simp only [spanDigits_append digits' (isDigit_head_exponent read), read, Option.bind_eq_bind,
    Option.bind_some]

/-- More zeros, and a smaller exponent. -/
theorem writes_scale {s : List Char} {digits : Nat} {exponent : Int} (zeros : Nat) :
    Writes s (digits * 10 ^ zeros) (exponent - zeros) ↔ Writes s digits exponent := by
  have same (negative : Bool) : Double.ofDecimal negative (digits * 10 ^ zeros) (exponent - zeros) =
      Double.ofDecimal negative digits exponent := by
    rw [Double.ofDecimal, Double.ofDecimal, Number.Magnitude.ofDecimal?_scale]
  exact ⟨fun h => ⟨h.unsigned, fun negative => same negative ▸ h.value negative⟩,
    fun h => ⟨h.unsigned, fun negative => (same negative).symm ▸ h.value negative⟩⟩

/-- A plus sign in front of an integer is read over. -/
theorem int?_plus (n : Nat) : int? ('+' :: Nat.toDigits 10 n) = some (n : Int) := by
  simp only [int?, spanSign, isEmpty_toDigits, isDigit_toDigits, ofDigits_toDigits, Bool.not_true,
    Bool.or_self, Bool.false_eq_true, if_false]

/-- An exponent is read back from its text, sign included. -/
theorem exponent?_text (e : Int) :
    exponent? ((if e < 0 then "e-" else "e+") ++ toString e.natAbs).toList = some e := by
  have digits : (toString e.natAbs).toList = Nat.toDigits 10 e.natAbs := Nat.toList_repr
  rw [String.toList_append, digits]
  split
  · next negative =>
    obtain ⟨n, rfl⟩ := Int.eq_negSucc_of_lt_zero negative
    have read := int?_toString (Int.negSucc n)
    rw [toList_toString_negSucc] at read
    exact read
  · next positive =>
    have read := int?_plus e.natAbs
    rw [Int.natAbs_of_nonneg (by omega)] at read
    exact read

end Numeral

namespace Number

open Numeral

/-! ## Decimals that read back -/

/-- A magnitude other than zero has units. -/
theorem Magnitude.units_pos {m : Magnitude} (h : m.val ≠ 0) : 0 < m.units := by
  unfold units unitsOfRank
  split
  · omega
  · exact Nat.mul_pos (Nat.add_pos_left (by decide) _) (Nat.two_pow_pos _)

namespace Decimal

variable {m : Magnitude}

/-- A decimal reads as a magnitude when its digits and exponent round to it. -/
theorem readsAs_iff {d : Decimal} :
    d.readsAs m = true ↔ Magnitude.ofDecimal? d.digits d.exponent = some m := by
  rw [readsAs, beq_iff_eq]

/-- The exact expansion reads back. -/
theorem readsAs_exact (h : m.val ≠ 0) : (exact m).readsAs m = true := by
  have positive := Magnitude.units_pos h
  have power (b : Nat) (hb : 0 < b) : 0 < b ^ unitExponent := Nat.pow_pos hb
  have whole : (-(unitExponent : Int)).toNat = 0 := by omega
  have fraction : (-(-(unitExponent : Int))).toNat = unitExponent := by omega
  have units : Magnitude.nearest? m.units 1 = some m := by
    have rank : nearestRank m.units 1 = m.val := nearestRank_units m.val
    simp only [Magnitude.nearest?, rank, m.isLt, dif_pos]
  rw [readsAs_iff, exact, Magnitude.ofDecimal?_eq (Nat.mul_pos positive (power 5 (by decide))),
    Magnitude.nearestDecimal?, whole, fraction, Nat.pow_zero, Nat.mul_one, Nat.mul_assoc,
    ← Nat.mul_pow, show 5 * 2 = 10 from rfl, ← units]
  have lowest := Magnitude.nearest?_mul m.units 1 (power 10 (by decide))
  rw [Nat.one_mul] at lowest
  exact lowest

/-- The shortest decimal found reads as the magnitude it was found for. -/
theorem readsAs_of_shortestOf? {tie : Tie} {expansion length count : Nat} {d : Decimal}
    (h : shortestOf? tie m expansion length count = some d) : d.readsAs m = true := by
  unfold shortestOf? at h
  dsimp only at h
  split at h
  · next low _ =>
    cases h
    exact low
  · next _ high =>
    cases h
    exact high
  · cases h
  · next low high =>
    -- both neighbours read back, whichever is taken
    split at h
    · cases h
      exact low
    · split at h
      · cases h
        exact high
      · split at h
        · cases h
          exact high
        · split at h <;> cases h
          · exact low
          · exact high

/-- **The shortest decimal reads back.** -/
theorem readsAs_shortest (tie : Tie) (h : m.val ≠ 0) : (shortest tie m).readsAs m = true := by
  unfold shortest
  dsimp only
  cases found : ((List.range 17).map (· + 1)).findSome?
      (shortestOf? tie m (exact m).digits (Nat.toDigits 10 (exact m).digits).length) with
  | none => exact readsAs_exact h
  | some d =>
    obtain ⟨count, -, cut⟩ := List.exists_of_findSome?_eq_some found
    exact readsAs_of_shortestOf? cut

/-- A decimal that reads back as anything but zero has digits. -/
theorem digits_pos {d : Decimal} (h : m.val ≠ 0) (reads : d.readsAs m = true) : 0 < d.digits := by
  rcases Nat.eq_zero_or_pos d.digits with zero | positive
  · rw [readsAs_iff, zero, Magnitude.ofDecimal?, if_pos rfl] at reads
    obtain rfl := Option.some.inj reads
    exact absurd rfl h
  · exact positive

end Decimal

/-! ## Layouts -/

namespace Layout

/-- Trailing zeros can be split off. -/
theorem exists_zeros (all : List Char) :
    ∃ n, all = (all.reverse.dropWhile (· == '0')).reverse ++ List.replicate n '0' := by
  refine ⟨(all.reverse.takeWhile (· == '0')).length, ?_⟩
  have zeros : all.reverse.takeWhile (· == '0') =
      List.replicate (all.reverse.takeWhile (· == '0')).length '0' :=
    List.eq_replicate_iff.2 ⟨rfl, fun c hc => by
      simpa using List.all_eq_true.1 List.all_takeWhile c hc⟩
  rw [← List.reverse_inj, List.reverse_append, List.reverse_reverse, List.reverse_replicate,
    ← zeros, List.takeWhile_append_dropWhile]

section Texts

variable {digits : List Char} (nonempty : digits ≠ []) (all : ∀ c ∈ digits, c.isDigit = true)

theorem isDigit_zeros (n : Nat) : ∀ c ∈ zeros n, c.isDigit = true := fun c hc => by
  rw [List.eq_of_mem_replicate hc]
  rfl

theorem isDigit_append {s t : List Char} (hs : ∀ c ∈ s, c.isDigit = true)
    (ht : ∀ c ∈ t, c.isDigit = true) : ∀ c ∈ s ++ t, c.isDigit = true := fun c hc =>
  (List.mem_append.1 hc).elim (hs c) (ht c)

include nonempty all

/-- The positional notation writes the digits with the point where it stands. -/
theorem writes_positionalText (point : Int) :
    Writes (json.positionalText digits point).toList (ofDigits digits)
      (point - digits.length) := by
  unfold positionalText
  split
  · -- all digits stand behind the point, with zeros in between
    obtain ⟨gap, hgap⟩ : ∃ n, n = (-point).toNat := ⟨_, rfl⟩
    have text : ("0." ++ String.ofList (zeros (-point).toNat ++ digits)).toList =
        zeros 1 ++ '.' :: ((zeros gap ++ digits) ++ []) := by
      simp [zeros, hgap]
    have value : ofDigits (zeros 1 ++ (zeros gap ++ digits)) = ofDigits digits := by
      rw [zeros, zeros, ofDigits_zeros_append, ofDigits_zeros_append]
    have exponent : (0 : Int) - (zeros gap ++ digits).length = point - digits.length := by
      rw [List.length_append, zeros, List.length_replicate]
      omega
    rw [text, ← value, ← exponent]
    exact writes_point (by decide) (isDigit_zeros 1) (isDigit_append (isDigit_zeros gap) all) rfl
  · dsimp only
    split
    · -- all digits stand in front of the point, with zeros behind them
      obtain ⟨gap, hgap⟩ : ∃ n, n = point.toNat - digits.length := ⟨_, rfl⟩
      have text : (String.ofList (digits ++ zeros (point.toNat - digits.length)) ++
          json.wholeEnding).toList = (digits ++ zeros gap) ++ '.' :: (zeros 1 ++ []) := by
        rw [String.toList_append, String.toList_ofList, hgap]
        rfl
      have value : ofDigits ((digits ++ zeros gap) ++ zeros 1) =
          ofDigits digits * 10 ^ (gap + 1) := by
        rw [List.append_assoc, zeros, zeros, List.replicate_append_replicate,
          ofDigits_append_zeros]
      have exponent : (0 : Int) - (zeros 1).length =
          point - digits.length - ((gap + 1 : Nat) : Int) := by
        rw [zeros, List.length_replicate]
        omega
      refine (writes_scale (gap + 1)).1 ?_
      rw [text, ← value, ← exponent]
      exact writes_point (by simp [nonempty]) (isDigit_append all (isDigit_zeros gap))
        (isDigit_zeros 1) rfl
    · -- the point stands among the digits
      have text : (String.ofList (digits.take point.toNat ++ '.' :: digits.drop point.toNat)).toList =
          digits.take point.toNat ++ '.' :: (digits.drop point.toNat ++ []) := by
        rw [String.toList_ofList, List.append_nil]
      have exponent : (0 : Int) - (digits.drop point.toNat).length = point - digits.length := by
        rw [List.length_drop]
        omega
      have front : digits.take point.toNat ≠ [] := by
        rw [ne_eq, List.take_eq_nil_iff, not_or]
        exact ⟨by omega, nonempty⟩
      have writes := writes_point front (fun c hc => all c (List.mem_of_mem_take hc))
        (fun c (hc : c ∈ digits.drop point.toNat) => all c (List.mem_of_mem_drop hc))
        (show exponent? [] = some 0 from rfl)
      rwa [List.take_append_drop, exponent, ← text] at writes

/-- The exponent notation writes the digits with the point after the first of them. -/
theorem writes_exponentText (exponent : Int) :
    Writes (exponentText digits exponent).toList (ofDigits digits)
      (exponent + 1 - digits.length) := by
  obtain ⟨c, rest, rfl⟩ := List.exists_cons_of_ne_nil nonempty
  rw [List.forall_mem_cons] at all
  have first : ∀ d ∈ [c], d.isDigit = true := fun d hd => List.mem_singleton.1 hd ▸ all.1
  have tail := exponent?_text exponent
  cases rest with
  | nil =>
    have writes := writes_append (List.cons_ne_nil c []) first tail
    have text : (exponentText [c] exponent).toList = [c] ++
        ((if exponent < 0 then "e-" else "e+") ++ toString exponent.natAbs).toList := by
      simp [exponentText]
    have places : exponent + 1 - ([c].length : Int) = exponent := by simp
    rw [text, places]
    exact writes
  | cons d rest =>
    have writes := writes_point (List.cons_ne_nil c []) first all.2 tail
    have text : (exponentText (c :: d :: rest) exponent).toList = [c] ++ '.' :: (d :: rest ++
        ((if exponent < 0 then "e-" else "e+") ++ toString exponent.natAbs).toList) := by
      simp [exponentText]
    have places : exponent - ((d :: rest).length : Int) =
        exponent + 1 - ((c :: d :: rest).length : Int) := by
      simp only [List.length_cons]
      omega
    rw [text, ← places]
    exact writes

end Texts

/-- **A decimal is read back from its text.** -/
theorem writes_decimalText {d : Decimal} (positive : 0 < d.digits) :
    Writes (json.decimalText d).toList d.digits d.exponent := by
  obtain ⟨all, hall⟩ : ∃ s, s = Nat.toDigits 10 d.digits := ⟨_, rfl⟩
  obtain ⟨digits, hdigits⟩ : ∃ s, s = (all.reverse.dropWhile (· == '0')).reverse := ⟨_, rfl⟩
  obtain ⟨gap, parts⟩ := exists_zeros all
  rw [← hdigits] at parts
  have value : d.digits = ofDigits digits * 10 ^ gap := by
    rw [← ofDigits_append_zeros, ← parts, hall, ofDigits_toDigits]
  have nonempty : digits ≠ [] := by
    rintro rfl
    rw [ofDigits, List.foldl_nil, Nat.zero_mul] at value
    omega
  have isDigit : ∀ c ∈ digits, c.isDigit = true := fun c hc =>
    List.all_eq_true.1 (isDigit_toDigits d.digits) c
      (hall ▸ parts ▸ List.mem_append_left _ hc)
  have places : (all.length : Int) + d.exponent - digits.length = d.exponent + gap := by
    have := congrArg List.length parts
    rw [List.length_append, List.length_replicate] at this
    omega
  rw [value, ← Int.add_sub_cancel d.exponent gap, writes_scale, ← places]
  unfold decimalText
  dsimp only
  rw [← hall, ← hdigits]
  split
  · exact writes_positionalText nonempty isDigit _
  · have := writes_exponentText nonempty isDigit ((all.length : Int) + d.exponent - 1)
    rwa [Int.sub_add_cancel] at this

/-- The text of a finite number behind its sign. -/
theorem exists_writes (x : Finite) :
    ∃ body digits exponent, Writes body digits exponent ∧
      Magnitude.ofDecimal? digits exponent = some x.magnitude ∧
      (json.finiteText x).toList = (if x.negative then ['-'] else []) ++ body := by
  have sign : (if x.negative then "-" else "").toList = if x.negative then ['-'] else [] := by
    cases x.negative <;> rfl
  cases zero : x.isZero with
  | true =>
    have magnitude : x.magnitude = Magnitude.zero := by
      rw [Finite.isZero, beq_iff_eq] at zero
      exact Fin.ext zero
    have writes : Writes (zeros 1 ++ '.' :: (zeros 1 ++ [])) (ofDigits (zeros 1 ++ zeros 1)) (0 - 1) :=
      writes_point (by decide) (isDigit_zeros 1) (isDigit_zeros 1) rfl
    have nothing : ofDigits (zeros 1 ++ zeros 1) = 0 := by decide
    refine ⟨_, _, _, writes, ?_, ?_⟩
    · rw [magnitude, nothing, Magnitude.ofDecimal?, if_pos rfl]
    · rw [finiteText, String.toList_append, sign, zero, if_pos rfl, String.toList_append]
      rfl
  | false =>
    have nonzero : x.magnitude.val ≠ 0 := by
      rw [Finite.isZero, beq_eq_false_iff_ne] at zero
      exact zero
    have reads := Decimal.readsAs_shortest json.tie nonzero
    refine ⟨_, _, _, writes_decimalText (Decimal.digits_pos nonzero reads),
      Decimal.readsAs_iff.1 reads, ?_⟩
    rw [finiteText, String.toList_append, sign, zero, if_neg Bool.false_ne_true]

end Layout

end Number

open Number in
/-- **A finite number is read back from its text.** -/
theorem Double.ofNumeral?_finiteText (x : Finite) :
    ofNumeral? (Layout.json.finiteText x) = some (.finite x) := by
  obtain ⟨body, digits, exponent, writes, reads, text⟩ := Layout.exists_writes x
  have sign : Numeral.spanSign (Layout.json.finiteText x).toList = (x.negative, body) := by
    rw [text]
    cases x.negative with
    | true => rfl
    | false => exact writes.unsigned
  simp only [ofNumeral?, sign, writes.value, ofDecimal, reads, ofMagnitude]

end RpcBridge
