import RpcBridge.Proofs.Calendar.ReadBack

/-!
# Proofs/Calendar/Reading — what can be read as an instant

A timestamp has a year of four digits and any offset, so that the instant it names lies in the years
-1 to 10000: one that is close to the edge leaves the years that are written with four digits.

* `Instant.isValid_of_ofText?` — what is read is an instant of the calendar;
* `Instant.ofText?_wire_eq_none` — an instant outside the years 0 to 9999 is written as a text that
  cannot be read.
-/

namespace RpcBridge

-- Powers are the ones of the core library, also where an algebraic library is in scope.
attribute [local instance (high)] instPowNat

namespace Calendar

/-! ## Numbers of a few digits -/

theorem spanNumber_digits (most : Nat) (s : List Char) :
    (∀ c ∈ (spanNumber most s).1, c.isDigit = true) ∧ (spanNumber most s).1.length ≤ most := by
  induction s generalizing most with
  | nil => simp [spanNumber]
  | cons c rest ih =>
    cases most with
    | zero => simp [spanNumber]
    | succ most =>
      rw [spanNumber]
      split
      · next digit =>
        exact ⟨List.forall_mem_cons.2 ⟨digit, (ih most).1⟩, Nat.succ_le_succ (ih most).2⟩
      · simp

theorem ofDigitChars_lt {digits : List Char} (h : ∀ c ∈ digits, c.isDigit = true) (init : Nat) :
    Nat.ofDigitChars 10 digits init < (init + 1) * 10 ^ digits.length := by
  induction digits generalizing init with
  | nil => simp
  | cons c rest ih =>
    rw [List.forall_mem_cons] at h
    have digit : c.toNat - '0'.toNat ≤ 9 := by
      have := h.1
      simp only [Char.isDigit, Bool.and_eq_true, decide_eq_true_eq] at this
      have high : c.toNat ≤ 57 := this.2
      have : '0'.toNat = 48 := rfl
      omega
    rw [Nat.ofDigitChars_cons, List.length_cons, Nat.pow_succ]
    refine Nat.lt_of_lt_of_le (ih h.2 _) ?_
    calc (10 * init + (c.toNat - '0'.toNat) + 1) * 10 ^ rest.length
        ≤ ((init + 1) * 10) * 10 ^ rest.length := Nat.mul_le_mul_right _ (by omega)
      _ = (init + 1) * (10 ^ rest.length * 10) := by rw [Nat.mul_assoc, Nat.mul_comm 10]

/-- **A number of a few digits is small.** -/
theorem number?_lt {least most n : Nat} {s rest : List Char}
    (h : number? least most s = some (n, rest)) : n < 10 ^ most := by
  have digits := spanNumber_digits most s
  simp only [number?] at h
  split at h
  · cases h
  · cases h
    refine Nat.lt_of_lt_of_le (ofDigitChars_lt digits.1 0) ?_
    rw [Nat.zero_add, Nat.one_mul]
    exact Nat.pow_le_pow_right (by decide) digits.2

/-! ## Years of days -/

/-- A day lies in a year that its number allows. -/
theorem year_ofDays_bounds (days : Int) :
    146097 * ((Civil.ofDays days).year - 400) ≤ 400 * (days + 719468) ∧
      400 * (days + 719468) ≤ 146097 * ((Civil.ofDays days).year + 400) := by
  obtain ⟨era, year, day, named, found⟩ := exists_named days
  have sum := named.sum
  have low := named.year_low
  have high := named.year_high
  have first := named.day_low
  have last := named.day_high
  rw [found]
  simp only [civilOf]
  unfold startOfYear at sum
  split <;> omega

/-- The day of a civil date lies near the start of its year. -/
theorem toDays_bounds {c : Civil} (h : c.isValid = true) :
    146097 * (c.year - 800) ≤ 400 * (c.toDays + 719468) ∧
      400 * (c.toDays + 719468) ≤ 146097 * (c.year + 800) := by
  simp only [Civil.isValid, Bool.and_eq_true, decide_eq_true_eq] at h
  have day := daysIn_le c.year c.month
  simp only [Civil.toDays]
  split <;> split <;> omega

end Calendar

open Calendar

namespace Instant

/-! ## Reading instants -/

theorem fraction?_lt {s rest : List Char} {nanos : Nat} (h : fraction? s = some (nanos, rest)) :
    nanos < second := by
  unfold fraction? at h
  split at h
  · next more =>
    have digits := spanNumber_digits 9 more
    obtain ⟨span, hspan⟩ : ∃ p, p = spanNumber 9 more := ⟨_, rfl⟩
    obtain ⟨ds, after⟩ := span
    rw [← hspan] at digits h
    simp only at digits h
    split at h
    · cases h
    · cases h
      have few : Nat.ofDigitChars 10 ds 0 < 10 ^ ds.length := by
        simpa using ofDigitChars_lt digits.1 0
      calc Nat.ofDigitChars 10 ds 0 * 10 ^ (9 - ds.length)
          < 10 ^ ds.length * 10 ^ (9 - ds.length) :=
            Nat.mul_lt_mul_of_pos_right few (Nat.pow_pos (by decide))
        _ = 10 ^ (9 : Nat) := by rw [← Nat.pow_add, Nat.add_sub_cancel' digits.2]
  · cases h
    decide

/-- An offset is a number of minutes and less than a day. -/
theorem zone?_bounds {s : List Char} {offset : Int} (h : zone? s = some offset) :
    offset % 60 = 0 ∧ -86400 < offset ∧ offset < 86400 := by
  have signed {s : List Char} {n : Int} (h : offset? s = some n) :
      n % 60 = 0 ∧ 0 ≤ n ∧ n < 86400 := by
    simp only [offset?, Option.bind_eq_bind, Option.bind_eq_some_iff] at h
    obtain ⟨⟨hours, _⟩, -, _, -, ⟨minutes, rest⟩, -, h⟩ := h
    simp only [Bool.and_eq_true, decide_eq_true_eq, Option.ite_none_right_eq_some,
      Option.some.injEq] at h
    omega
  unfold zone? at h
  split at h
  · cases h
    decide
  · cases h
    decide
  · have := signed h
    omega
  · obtain ⟨n, hn, rfl⟩ := Option.map_eq_some_iff.1 h
    have := signed hn
    omega
  · obtain ⟨n, hn, rfl⟩ := Option.map_eq_some_iff.1 h
    have := signed hn
    omega
  · cases h

/-- The numbers of a timestamp, and the instant they name. -/
theorem exists_of_ofText? {text : String} {i : Instant} (h : ofText? text = some i) :
    ∃ (year month day hour minute sec nanos : Nat) (offset : Int),
      (year < 10 ^ (4 : Nat) ∧ nanos < second ∧ offset % 60 = 0 ∧ -86400 < offset ∧ offset < 86400) ∧
      ((⟨year, month, day⟩ : Civil).isValid = true ∧ hour ≤ 23 ∧ minute ≤ 59 ∧ sec ≤ 60) ∧
      i = ⟨(⟨year, month, day⟩ : Civil).toDays * 86400 +
          (((hour * 60 + minute) * 60 + (sec - if sec = 60 then 1 else 0) : Nat) : Int) - offset,
        nanos + (if sec = 60 then 1 else 0) * second⟩ := by
  unfold ofText? at h
  obtain ⟨⟨year, _⟩, hyear, h⟩ := Option.bind_eq_some_iff.1 h
  obtain ⟨_, -, h⟩ := Option.bind_eq_some_iff.1 h
  obtain ⟨⟨month, _⟩, -, h⟩ := Option.bind_eq_some_iff.1 h
  obtain ⟨_, -, h⟩ := Option.bind_eq_some_iff.1 h
  obtain ⟨⟨day, _⟩, -, h⟩ := Option.bind_eq_some_iff.1 h
  -- the date and the time may be separated in three ways
  dsimp only at h
  split at h
  case h_4 => cases h
  all_goals
    obtain ⟨_, -, h⟩ := Option.bind_eq_some_iff.1 h
    obtain ⟨⟨hour, _⟩, -, h⟩ := Option.bind_eq_some_iff.1 h
    obtain ⟨_, -, h⟩ := Option.bind_eq_some_iff.1 h
    obtain ⟨⟨minute, _⟩, -, h⟩ := Option.bind_eq_some_iff.1 h
    obtain ⟨_, -, h⟩ := Option.bind_eq_some_iff.1 h
    obtain ⟨⟨sec, _⟩, -, h⟩ := Option.bind_eq_some_iff.1 h
    obtain ⟨⟨nanos, _⟩, hnanos, h⟩ := Option.bind_eq_some_iff.1 h
    obtain ⟨offset, hoffset, h⟩ := Option.bind_eq_some_iff.1 h
    simp only [Bool.and_eq_true, decide_eq_true_eq, Option.ite_none_right_eq_some,
      Option.some.injEq] at h
    obtain ⟨⟨⟨⟨civil, hours⟩, minutes⟩, seconds⟩, rfl⟩ := h
    exact ⟨year, month, day, hour, minute, sec, nanos, offset,
      ⟨number?_lt hyear, fraction?_lt hnanos, zone?_bounds hoffset⟩,
      ⟨civil, hours, minutes, seconds⟩, rfl⟩

/-- **What is read as an instant is an instant of the calendar.** -/
theorem isValid_of_ofText? {text : String} {i : Instant} (h : ofText? text = some i) :
    i.isValid = true := by
  obtain ⟨year, month, day, hour, minute, sec, nanos, offset,
    ⟨few_years, few_nanos, sixties, low, high⟩, ⟨civil, hours, minutes, seconds⟩, rfl⟩ :=
      exists_of_ofText? h
  have near := toDays_bounds civil
  simp only at near
  obtain ⟨days, hdays⟩ : ∃ d, d = (⟨year, month, day⟩ : Civil).toDays := ⟨_, rfl⟩
  rw [← hdays] at near ⊢
  have years := year_ofDays_bounds ((days * 86400 +
    (((hour * 60 + minute) * 60 + (sec - if sec = 60 then 1 else 0) : Nat) : Int) - offset) / 86400)
  simp only [isValid, Bool.and_eq_true, Bool.or_eq_true, decide_eq_true_eq, beq_iff_eq]
  unfold second at few_nanos ⊢
  unfold firstYear lastYear
  by_cases leap : sec = 60
  · rw [if_pos leap] at years ⊢
    omega
  · rw [if_neg leap] at years ⊢
    omega

/-- **An instant outside the years 0 to 9999 is written with a sign**, which no timestamp has. -/
theorem ofText?_wire_eq_none {i : Instant} (h : i.civil.year < 0 ∨ 9999 < i.civil.year) :
    ofText? i.wire = none := by
  have signed : ∃ c rest, i.wire.toList = c :: rest ∧ c.isDigit = false := by
    unfold wire toText Civil.toText yearText
    rcases h with negative | large
    · exact ⟨'-', _, by simp only [negative, if_true, String.toList_append]; rfl, rfl⟩
    · have positive : ¬i.civil.year < 0 := by omega
      have beyond : ¬i.civil.year ≤ 9999 := by omega
      exact ⟨'+', _, by simp only [positive, beyond, if_false, String.toList_append]; rfl, rfl⟩
  obtain ⟨c, rest, text, sign⟩ := signed
  have none : number? 4 4 i.wire.toList = none := by
    simp [number?, text, spanNumber, sign]
  simp only [ofText?, none, Option.bind_eq_bind, Option.bind_none]

end Instant

end RpcBridge
