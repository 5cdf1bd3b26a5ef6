import RpcBridge.Calendar.Date
import RpcBridge.Proofs.Calendar.Civil

/-!
# Proofs/Calendar/ReadBack — dates and instants read back as they were written

A number written with leading zeros is read back by `number?`, whatever follows it, as long as the
reader stops behind its digits (`number?_padded`).  Dates and instants are rows of such numbers.

* `Date.ofText?_toText` — every date reads back;
* `Instant.ofText?_wire` — every instant of the years 0 to 9999 reads back;
* `Instant.ofText?_wire_iff` — where nanoseconds may go on beyond any second, just those read back
  that do so in the last second of a minute.
-/

namespace RpcBridge

-- Powers are the ones of the core library, also where an algebraic library is in scope.
attribute [local instance (high)] instPowNat

namespace Calendar

/-! ## Numbers with leading zeros -/

/-- Whether a reader of `most` digits stops in front of a text after `count` digits. -/
def StopsAt (most count : Nat) (rest : List Char) : Prop :=
  count = most ∨ ∀ c ∈ rest.head?, c.isDigit = false

theorem spanNumber_append {digits rest : List Char} {most : Nat}
    (all : ∀ c ∈ digits, c.isDigit = true) (few : digits.length ≤ most)
    (stops : StopsAt most digits.length rest) :
    spanNumber most (digits ++ rest) = (digits, rest) := by
  induction digits generalizing most with
  | nil =>
    cases rest with
    | nil => simp [spanNumber]
    | cons c rest =>
      cases most with
      | zero => simp [spanNumber]
      | succ most =>
        have : c.isDigit = false := by simpa [StopsAt] using stops
        simp [spanNumber, this]
  | cons d digits ih =>
    cases most with
    | zero => simp at few
    | succ most =>
      have hd : d.isDigit = true := all d (by simp)
      have hstops : StopsAt most digits.length rest := by simpa [StopsAt] using stops
      simp [spanNumber, hd, ih (fun c hc => all c (by simp [hc])) (by simpa using few) hstops]

/-- **Digits are read as the number they write.** -/
theorem number?_append {digits rest : List Char} {least most : Nat}
    (all : ∀ c ∈ digits, c.isDigit = true) (enough : least ≤ digits.length)
    (few : digits.length ≤ most) (stops : StopsAt most digits.length rest) :
    number? least most (digits ++ rest) = some (Nat.ofDigitChars 10 digits 0, rest) := by
  simp [number?, spanNumber_append all few stops, Nat.not_lt.2 enough, Nat.ofDigitChars]

/-- The digits of a number with leading zeros. -/
def paddedDigits (width n : Nat) : List Char :=
  List.replicate (width - (Nat.toDigits 10 n).length) '0' ++ Nat.toDigits 10 n

@[simp] theorem toList_padded (width n : Nat) :
    (padded width n).toList = paddedDigits width n := String.toList_ofList

theorem isDigit_of_mem_paddedDigits {width n : Nat} :
    ∀ c ∈ paddedDigits width n, c.isDigit = true := by
  intro c hc
  rcases List.mem_append.1 hc with zero | digit
  · rw [List.eq_of_mem_replicate zero]
    rfl
  · exact Nat.isDigit_of_mem_toDigits (by decide) (by decide) digit

@[simp] theorem ofDigitChars_paddedDigits (width n : Nat) :
    Nat.ofDigitChars 10 (paddedDigits width n) 0 = n := by
  simp [paddedDigits, Nat.ofDigitChars_append]

theorem length_paddedDigits (width n : Nat) :
    (paddedDigits width n).length = max width (Nat.toDigits 10 n).length := by
  simp only [paddedDigits, List.length_append, List.length_replicate]
  omega

theorem length_paddedDigits_of_lt {width n : Nat} (positive : 0 < width) (h : n < 10 ^ width) :
    (paddedDigits width n).length = width := by
  have := (Nat.length_toDigits_le_iff (by decide) positive).2 h
  rw [length_paddedDigits]
  omega

/-- **A number that fits its width is read back by a reader of that width.** -/
theorem number?_padded {least width n : Nat} {rest : List Char} (positive : 0 < width)
    (least_le : least ≤ width) (h : n < 10 ^ width) :
    number? least width (paddedDigits width n ++ rest) = some (n, rest) := by
  have hlength := length_paddedDigits_of_lt positive h
  rw [number?_append isDigit_of_mem_paddedDigits (by omega) (by omega) (Or.inl hlength),
    ofDigitChars_paddedDigits]

/-- A number of any size is read back by a reader that takes all there is. -/
theorem number?_padded_all {width n : Nat} {rest : List Char}
    (stops : ∀ c ∈ rest.head?, c.isDigit = false) :
    number? 1 (paddedDigits width n ++ rest).length (paddedDigits width n ++ rest) =
      some (n, rest) := by
  have : 0 < (Nat.toDigits 10 n).length := Nat.length_toDigits_pos
  rw [number?_append isDigit_of_mem_paddedDigits (by rw [length_paddedDigits]; omega) (by simp)
    (Or.inr stops), ofDigitChars_paddedDigits]

/-- A number with leading zeros starts with a digit. -/
theorem exists_paddedDigits (width n : Nat) :
    ∃ c digits, paddedDigits width n = c :: digits ∧ c.isDigit = true := by
  cases h : paddedDigits width n with
  | nil =>
    have none := length_paddedDigits width n
    have : 0 < (Nat.toDigits 10 n).length := Nat.length_toDigits_pos
    rw [h, List.length_nil] at none
    omega
  | cons c digits => exact ⟨c, digits, rfl, isDigit_of_mem_paddedDigits c (by rw [h]; simp)⟩

/-! ## Dates -/

/-- A digit is no blank. -/
theorem isBlank_eq_false_of_isDigit {c : Char} (h : c.isDigit = true) : Text.isBlank c = false := by
  simp only [Char.isDigit, Bool.and_eq_true, decide_eq_true_eq] at h
  have low : 48 ≤ c.toNat := h.1
  have high : c.toNat ≤ 57 := h.2
  simp [Text.isBlank, Text.blankRanges]
  omega

/-- Digits in front keep a text from losing blanks. -/
theorem dropWhile_isBlank_paddedDigits (width n : Nat) (rest : List Char) :
    (paddedDigits width n ++ rest).dropWhile Text.isBlank = paddedDigits width n ++ rest := by
  obtain ⟨c, digits, h, hc⟩ := exists_paddedDigits width n
  rw [h, List.cons_append, List.dropWhile_cons_of_neg (by simp [isBlank_eq_false_of_isDigit hc])]

theorem daysIn_le (year : Int) (month : Nat) : daysIn year month ≤ 31 := by
  have february : (if isLeap year = true then 29 else 28) ≤ 31 := by split <;> omega
  unfold daysIn
  split <;> omega

/-- A day that exists has a month and a day of two digits. -/
theorem Civil.lt_hundred {c : Civil} (h : c.isValid = true) :
    c.month < 10 ^ (2 : Nat) ∧ c.day < 10 ^ (2 : Nat) := by
  simp only [Civil.isValid, Bool.and_eq_true, decide_eq_true_eq] at h
  have := daysIn_le c.year c.month
  omega

end Calendar

open Calendar

namespace Date

theorem year?_of_isDigit {c : Char} (hc : c.isDigit = true) (rest : List Char) :
    year? (c :: rest) = (number? 1 4 (c :: rest)).map fun (n, after) => ((n : Int), after) := by
  unfold year?
  split
  · rename_i h
    obtain ⟨rfl, -⟩ := List.cons.inj h
    simp [Char.isDigit] at hc
  · rename_i h
    obtain ⟨rfl, -⟩ := List.cons.inj h
    simp [Char.isDigit] at hc
  · rfl

/-- **Every year reads back**, whatever follows its text, if that starts with a hyphen. -/
theorem year?_yearText (year : Int) (rest : List Char) :
    year? (((yearText year).toList ++ '-' :: rest).dropWhile Text.isBlank) =
      some (year, '-' :: rest) := by
  have stops : ∀ c ∈ ('-' :: rest).head?, c.isDigit = false := by simp [Char.isDigit]
  unfold yearText
  split
  case isTrue negative =>
    have : ¬ Text.isBlank '-' = true := by decide
    simp only [String.toList_append, toList_padded, String.reduceToList, List.cons_append,
      List.nil_append, List.dropWhile_cons_of_neg this, year?, number?_padded_all stops,
      Option.map_some]
    rw [show -(year.natAbs : Int) = year by omega]
  case isFalse positive =>
    split
    case isTrue few =>
      obtain ⟨c, digits, h, hc⟩ := exists_paddedDigits 4 year.natAbs
      rw [toList_padded, dropWhile_isBlank_paddedDigits]
      conv => lhs; rw [h, List.cons_append, year?_of_isDigit hc, ← List.cons_append, ← h]
      rw [number?_padded (by decide) (by decide) (by omega), Option.map_some]
      simp only [show (year.natAbs : Int) = year by omega]
    case isFalse many =>
      have : ¬ Text.isBlank '+' = true := by decide
      simp only [String.toList_append, toList_padded, String.reduceToList, List.cons_append,
        List.nil_append, List.dropWhile_cons_of_neg this, year?, number?_padded_all stops,
        Option.map_some]
      rw [show (year.natAbs : Int) = year by omega]

theorem twoDigits?_paddedDigits {n : Nat} (h : n < 10 ^ (2 : Nat)) (rest : List Char) :
    twoDigits? (paddedDigits 2 n ++ rest) = some (n, rest) := by
  rw [twoDigits?, dropWhile_isBlank_paddedDigits, number?_padded (by decide) (by decide) h]

/-- **Every date reads back as it was written.** -/
theorem ofText?_toText (d : Date) : ofText? d.toText = some d := by
  obtain ⟨month, day⟩ := Civil.lt_hundred d.valid
  have text : d.toText.toList = (yearText d.civil.year).toList ++
      '-' :: (paddedDigits 2 d.civil.month ++ '-' :: (paddedDigits 2 d.civil.day ++ [])) := by
    simp [toText, Civil.toText]
  simp only [ofText?, text, year?_yearText, expect?, twoDigits?_paddedDigits month,
    twoDigits?_paddedDigits day, ofCivil?, Option.bind_eq_bind, Option.bind_some, if_true,
    List.isEmpty_nil, dif_pos d.valid]

end Date

/-! ## Instants -/

namespace Instant

theorem fraction?_paddedDigits {width n : Nat} (positive : 0 < width) (few : width ≤ 9)
    (h : n < 10 ^ width) :
    fraction? ('.' :: (paddedDigits width n ++ ['Z'])) = some (n * 10 ^ (9 - width), ['Z']) := by
  have hlength := length_paddedDigits_of_lt positive h
  have span : spanNumber 9 (paddedDigits width n ++ ['Z']) = (paddedDigits width n, ['Z']) :=
    spanNumber_append isDigit_of_mem_paddedDigits (by omega) (Or.inr (by simp [Char.isDigit]))
  obtain ⟨c, digits, cons, -⟩ := exists_paddedDigits width n
  have nonempty : (paddedDigits width n).isEmpty = false := by rw [cons]; rfl
  have value : (paddedDigits width n).foldl (fun n c => 10 * n + (c.toNat - '0'.toNat)) 0 = n :=
    ofDigitChars_paddedDigits width n
  simp only [fraction?, span, nonempty, hlength, value, Bool.false_eq_true, if_false]
  rfl

/-- The fraction of a second reads back. -/
theorem fraction?_fractionText {nanos : Nat} (h : nanos < second) :
    fraction? ((fractionText nanos).toList ++ ['Z']) = some (nanos, ['Z']) := by
  have text (width n : Nat) : ("." ++ padded width n).toList ++ ['Z'] =
      '.' :: (paddedDigits width n ++ ['Z']) := by simp
  unfold second at h
  unfold fractionText
  split
  · subst nanos
    rfl
  · split
    · rw [text, fraction?_paddedDigits (by decide) (by decide) (by omega)]
      congr 2
      omega
    · split
      · rw [text, fraction?_paddedDigits (by decide) (by decide) (by omega)]
        congr 2
        omega
      · rw [text, fraction?_paddedDigits (by decide) (by decide) (by omega)]
        congr 2
        omega

/-- The characters of the text of an instant whose year has four digits. -/
theorem toList_wire {i : Instant} (low : 0 ≤ i.civil.year) (high : i.civil.year ≤ 9999) :
    i.wire.toList = paddedDigits 4 i.civil.year.natAbs ++ '-' :: (paddedDigits 2 i.civil.month ++
      '-' :: (paddedDigits 2 i.civil.day ++ 'T' ::
        (paddedDigits 2 ((i.seconds % 86400).toNat / 3600) ++ ':' ::
          (paddedDigits 2 ((i.seconds % 86400).toNat / 60 % 60) ++ ':' ::
            (paddedDigits 2 ((i.seconds % 86400).toNat % 60 + if i.nanos < second then 0 else 1) ++
              ((fractionText (i.nanos - (if i.nanos < second then 0 else 1) * second)).toList ++
                ['Z'])))))) := by
  simp [wire, toText, Civil.toText, yearText, Int.not_lt.2 low, high]

theorem number?_two {n : Nat} (h : n < 10 ^ (2 : Nat)) (rest : List Char) :
    number? 2 2 (paddedDigits 2 n ++ rest) = some (n, rest) :=
  number?_padded (by decide) (by decide) h

theorem number?_four {n : Nat} (h : n < 10 ^ (4 : Nat)) (rest : List Char) :
    number? 4 4 (paddedDigits 4 n ++ rest) = some (n, rest) :=
  number?_padded (by decide) (by decide) h

/-- The sixtieth second of a minute is read as the leap second it was written for. -/
theorem leap_of_isValid {i : Instant} (valid : i.isValid = true) {leap : Nat}
    (hleap : leap = if i.nanos < second then 0 else 1) :
    leap * second ≤ i.nanos ∧ i.nanos - leap * second < second ∧
      (if (i.seconds % 86400).toNat % 60 + leap = 60 then 1 else 0) = leap ∧
      (i.seconds % 86400).toNat % 60 + leap ≤ 60 := by
  simp only [isValid, Bool.and_eq_true, Bool.or_eq_true, decide_eq_true_eq, beq_iff_eq] at valid
  have inSecond := valid.2
  by_cases early : i.nanos < second
  · rw [if_pos early] at hleap
    subst hleap
    refine ⟨by omega, by omega, if_neg ?_, ?_⟩ <;> omega
  · rw [if_neg early] at hleap
    subst hleap
    refine ⟨by omega, by omega, if_pos ?_, ?_⟩ <;> omega

/-- A timestamp is read part by part. -/
theorem ofText?_of_parts {text : String} {year month day hour minute sec nanos : Nat} {offset : Int}
    {ofYear ofMonth ofDay ofHour ofMinute ofSecond rest : List Char}
    (hyear : number? 4 4 text.toList = some (year, '-' :: ofYear))
    (hmonth : number? 2 2 ofYear = some (month, '-' :: ofMonth))
    (hday : number? 2 2 ofMonth = some (day, 'T' :: ofDay))
    (hhour : number? 2 2 ofDay = some (hour, ':' :: ofHour))
    (hminute : number? 2 2 ofHour = some (minute, ':' :: ofMinute))
    (hsec : number? 2 2 ofMinute = some (sec, ofSecond))
    (hnanos : fraction? ofSecond = some (nanos, rest)) (hoffset : zone? rest = some offset)
    (checks : ((⟨year, month, day⟩ : Civil).isValid && decide (hour ≤ 23) && decide (minute ≤ 59) &&
      decide (sec ≤ 60)) = true) :
    ofText? text = some ⟨(⟨year, month, day⟩ : Civil).toDays * 86400 +
        (((hour * 60 + minute) * 60 + (sec - if sec = 60 then 1 else 0) : Nat) : Int) - offset,
      nanos + (if sec = 60 then 1 else 0) * second⟩ := by
  simp only [ofText?, hyear, hmonth, hday, hhour, hminute, hsec, hnanos, hoffset, checks, expect?,
    Option.bind_eq_bind, Option.bind_some, if_true]

/-- **Every instant of the years 0 to 9999 reads back as it was written.** -/
theorem ofText?_wire {i : Instant} (valid : i.isValid = true) (low : 0 ≤ i.civil.year)
    (high : i.civil.year ≤ 9999) : ofText? i.wire = some i := by
  have dayValid : i.civil.isValid = true :=
    isValid_ofDays (Int.le_trans (by decide) low) (Int.le_trans high (by decide))
  obtain ⟨month, day⟩ := Civil.lt_hundred dayValid
  obtain ⟨leap, hleap⟩ : ∃ n, n = if i.nanos < second then 0 else 1 := ⟨_, rfl⟩
  obtain ⟨some_nanos, few_nanos, isLeap, few_seconds⟩ := leap_of_isValid valid hleap
  have text := toList_wire low high
  obtain ⟨ofDay, hofDay⟩ : ∃ n, n = (i.seconds % 86400).toNat := ⟨_, rfl⟩
  rw [← hofDay, ← hleap] at text
  rw [← hofDay] at isLeap few_seconds
  have civil : (⟨i.civil.year.natAbs, i.civil.month, i.civil.day⟩ : Civil) = i.civil := by
    rw [show (i.civil.year.natAbs : Int) = i.civil.year by omega]
  have few_hours : ofDay / 3600 ≤ 23 := by omega
  have few_minutes : ofDay / 60 % 60 ≤ 59 := by omega
  have checks : (i.civil.isValid && decide (ofDay / 3600 ≤ 23) && decide (ofDay / 60 % 60 ≤ 59) &&
      decide (ofDay % 60 + leap ≤ 60)) = true := by
    simp only [dayValid, few_hours, few_minutes, few_seconds, decide_true, Bool.and_self]
  have days : i.civil.toDays = i.seconds / 86400 := toDays_ofDays _
  have seconds : i.civil.toDays * 86400 +
      (((ofDay / 3600 * 60 + ofDay / 60 % 60) * 60 + (ofDay % 60 + leap - leap) : Nat) : Int) - 0 =
        i.seconds := by
    rw [days]
    omega
  have nanos : i.nanos - leap * second + leap * second = i.nanos := Nat.sub_add_cancel some_nanos
  have hour : ofDay / 3600 < 10 ^ (2 : Nat) := by omega
  have minute : ofDay / 60 % 60 < 10 ^ (2 : Nat) := by omega
  have ofMinute : ofDay % 60 + leap < 10 ^ (2 : Nat) := by omega
  have year : i.civil.year.natAbs < 10 ^ (4 : Nat) := by omega
  rw [ofText?_of_parts (text ▸ number?_four year _) (number?_two month _) (number?_two day _)
    (number?_two hour _) (number?_two minute _) (number?_two ofMinute _)
    (fraction?_fractionText few_nanos) rfl (civil ▸ checks), civil, isLeap, seconds, nanos]

/-! ## Leap seconds out of place -/

/-- Nanoseconds go on beyond a second only where the calendar has leap seconds: in the last second
of a minute. -/
def Regular (i : Instant) : Prop := i.nanos < second ∨ i.seconds % 60 = 59

instance (i : Instant) : Decidable i.Regular :=
  inferInstanceAs (Decidable (i.nanos < second ∨ i.seconds % 60 = 59))

theorem isValid_of_regular {i : Instant} (few : i.nanos < 2 * second) (regular : i.Regular)
    (low : 0 ≤ i.civil.year) (high : i.civil.year ≤ 9999) : i.isValid = true := by
  have early : firstYear ≤ i.civil.year := Int.le_trans (by decide) low
  have late : i.civil.year ≤ lastYear := Int.le_trans high (by decide)
  unfold Regular at regular
  simp only [isValid, Bool.and_eq_true, Bool.or_eq_true, decide_eq_true_eq, beq_iff_eq]
  exact ⟨⟨early, late⟩, by omega⟩

/-- An instant of the calendar has no leap second out of place. -/
theorem regular_of_isValid {i : Instant} (valid : i.isValid = true) :
    i.nanos < 2 * second ∧ i.Regular := by
  simp only [isValid, Bool.and_eq_true, Bool.or_eq_true, decide_eq_true_eq, beq_iff_eq] at valid
  unfold Regular
  omega

/-- The instant with its leap second carried over to the second that follows. -/
def carried (i : Instant) : Instant := ⟨i.seconds + 1, i.nanos - second⟩

/-- The second that follows lies on the same day, unless the minute ends. -/
theorem civil_carried {i : Instant} (irregular : ¬i.Regular) : i.carried.civil = i.civil := by
  unfold Regular at irregular
  have days : (i.seconds + 1) / 86400 = i.seconds / 86400 := by omega
  simp only [civil, carried, days]

/-- **A leap second out of place is written as the second that follows.** -/
theorem wire_carried {i : Instant} (few : i.nanos < 2 * second) (irregular : ¬i.Regular) :
    i.carried.wire = i.wire := by
  have civil := civil_carried irregular
  unfold Regular at irregular
  have ofDay : (i.carried.seconds % 86400).toNat = (i.seconds % 86400).toNat + 1 := by
    simp only [carried]
    omega
  have inMinute : (i.seconds % 86400).toNat % 60 ≠ 59 := by omega
  have nanos : i.carried.nanos = i.nanos - second := rfl
  have late : ¬i.nanos < second := by omega
  have early : i.nanos - second < second := by omega
  rw [wire, wire, toText, toText, civil, ofDay, nanos]
  simp only [if_pos early, if_neg late]
  generalize (i.seconds % 86400).toNat = n at inMinute ⊢
  rw [show (n + 1) / 3600 = n / 3600 by omega, show (n + 1) / 60 = n / 60 by omega,
    show (n + 1) % 60 + 0 = n % 60 + 1 by omega, Nat.one_mul, Nat.zero_mul, Nat.sub_zero]

/-- A leap second out of place is read as another instant. -/
theorem ofText?_wire_of_irregular {i : Instant} (few : i.nanos < 2 * second)
    (low : 0 ≤ i.civil.year) (high : i.civil.year ≤ 9999) (irregular : ¬i.Regular) :
    ofText? i.wire = some i.carried := by
  have early : i.carried.nanos < second := by
    simp only [carried]
    omega
  rw [← civil_carried irregular] at low high
  have valid := isValid_of_regular (by omega) (Or.inl early) low high
  rw [← wire_carried few irregular, ofText?_wire valid low high]

/-- **An instant reads back exactly if its leap second is in place.** -/
theorem ofText?_wire_iff {i : Instant} (few : i.nanos < 2 * second) (low : 0 ≤ i.civil.year)
    (high : i.civil.year ≤ 9999) : ofText? i.wire = some i ↔ i.Regular := by
  by_cases regular : i.Regular
  · exact iff_of_true (ofText?_wire (isValid_of_regular few regular low high) low high) regular
  · have read := ofText?_wire_of_irregular few low high regular
    refine iff_of_false (fun same => ?_) regular
    have seconds := congrArg Instant.seconds (Option.some.inj (read.symm.trans same))
    simp only [carried] at seconds
    omega

/-! ## Distinct instants -/

/-- The characters of the text of an instant. -/
theorem toList_wire_yearText (i : Instant) :
    i.wire.toList = (yearText i.civil.year).toList ++ '-' :: (paddedDigits 2 i.civil.month ++
      '-' :: (paddedDigits 2 i.civil.day ++ 'T' ::
        (paddedDigits 2 ((i.seconds % 86400).toNat / 3600) ++ ':' ::
          (paddedDigits 2 ((i.seconds % 86400).toNat / 60 % 60) ++ ':' ::
            (paddedDigits 2 ((i.seconds % 86400).toNat % 60 + if i.nanos < second then 0 else 1) ++
              ((fractionText (i.nanos - (if i.nanos < second then 0 else 1) * second)).toList ++
                ['Z'])))))) := by
  simp [wire, toText, Civil.toText]

theorem paddedDigits_two_inj {m n : Nat} {rest rest' : List Char} (hm : m < 10 ^ (2 : Nat))
    (hn : n < 10 ^ (2 : Nat)) (same : paddedDigits 2 m ++ rest = paddedDigits 2 n ++ rest') :
    m = n ∧ rest = rest' := by
  have read := number?_two hm rest
  rw [same, number?_two hn] at read
  cases read
  exact ⟨rfl, rfl⟩

theorem yearText_inj {y z : Int} {rest rest' : List Char}
    (same : (yearText y).toList ++ '-' :: rest = (yearText z).toList ++ '-' :: rest') :
    y = z ∧ rest = rest' := by
  have read := Date.year?_yearText y rest
  rw [same, Date.year?_yearText] at read
  cases read
  exact ⟨rfl, rfl⟩

/-- **Two instants of the calendar travel alike only if they are one**, also outside the years that
are read back. -/
theorem wire_inj {i k : Instant} (hi : i.isValid = true) (hk : k.isValid = true)
    (same : i.wire = k.wire) : i = k := by
  have bounds {i : Instant} (valid : i.isValid = true) :
      i.civil.month < 10 ^ (2 : Nat) ∧ i.civil.day < 10 ^ (2 : Nat) := by
    simp only [isValid, Bool.and_eq_true, decide_eq_true_eq] at valid
    exact Civil.lt_hundred (isValid_ofDays valid.1.1 valid.1.2)
  obtain ⟨leap, hleap⟩ : ∃ n, n = if i.nanos < second then 0 else 1 := ⟨_, rfl⟩
  obtain ⟨leap', hleap'⟩ : ∃ n, n = if k.nanos < second then 0 else 1 := ⟨_, rfl⟩
  obtain ⟨some_nanos, few_nanos, isLeap, few_seconds⟩ := leap_of_isValid hi hleap
  obtain ⟨some_nanos', few_nanos', isLeap', few_seconds'⟩ := leap_of_isValid hk hleap'
  have text := congrArg String.toList same
  rw [toList_wire_yearText, toList_wire_yearText, ← hleap, ← hleap'] at text
  obtain ⟨n, hn⟩ : ∃ n, n = (i.seconds % 86400).toNat := ⟨_, rfl⟩
  obtain ⟨n', hn'⟩ : ∃ n, n = (k.seconds % 86400).toNat := ⟨_, rfl⟩
  rw [← hn, ← hn'] at text
  rw [← hn] at isLeap few_seconds
  rw [← hn'] at isLeap' few_seconds'
  -- part by part
  obtain ⟨year, text⟩ := yearText_inj text
  obtain ⟨month, text⟩ := paddedDigits_two_inj (bounds hi).1 (bounds hk).1 text
  obtain ⟨day, text⟩ :=
    paddedDigits_two_inj (bounds hi).2 (bounds hk).2 (List.cons.inj text).2
  obtain ⟨hour, text⟩ :=
    paddedDigits_two_inj (by omega) (by omega) (List.cons.inj text).2
  obtain ⟨minute, text⟩ :=
    paddedDigits_two_inj (by omega) (by omega) (List.cons.inj text).2
  obtain ⟨ofMinute, text⟩ :=
    paddedDigits_two_inj (by omega) (by omega) (List.cons.inj text).2
  have fraction := fraction?_fractionText few_nanos
  rw [text, fraction?_fractionText few_nanos'] at fraction
  have nanos : k.nanos - leap' * second = i.nanos - leap * second :=
    (Prod.mk.inj (Option.some.inj fraction)).1
  have leaps : leap = leap' := by rw [← isLeap, ← isLeap', ofMinute]
  have civil : i.civil = k.civil := Civil.mk.injEq .. ▸ ⟨year, month, day⟩
  have days : i.seconds / 86400 = k.seconds / 86400 := by
    rw [← toDays_ofDays (i.seconds / 86400), ← toDays_ofDays (k.seconds / 86400)]
    exact congrArg Civil.toDays civil
  have seconds : i.seconds = k.seconds := by omega
  subst leaps
  have whole : i.nanos = k.nanos := by omega
  cases i
  cases k
  cases seconds
  cases whole
  rfl

end Instant

end RpcBridge
