import RpcBridge.Calendar.Instant

/-!
# Proofs/Calendar/Civil — counting days and naming them

`Civil.ofDays` names a day and `Civil.toDays` counts it.  Within an era of 400 years a day is
counted from the first day of its year (`startOfYear`); the quotient by which `ofDays` guesses the
year is the right one (`startOfYear_bounds`).

* `toDays_ofDays` — counting a named day gives back its number;
* `isValid_ofDays` — a named day exists, as long as its year is in the calendar.
-/

namespace RpcBridge.Calendar

/-! ## Years of an era -/

/-- The first day of a year of an era, counted from the era's first day. -/
def startOfYear (year : Int) : Int := 365 * year + year / 4 - year / 100

/-- The days of an era that come before a day, leap days taken off. -/
def leaplessDays (day : Int) : Int := day - day / 1460 + day / 36524 - day / 146096

theorem leaplessDays_mono {d e : Int} (h : d ≤ e) : leaplessDays d ≤ leaplessDays e := by
  obtain ⟨k, rfl⟩ := Int.le.dest h
  induction k with
  | zero => simp
  | succ k ih =>
    refine Int.le_trans (ih (by omega)) ?_
    unfold leaplessDays
    omega

/-- A year of an era is so many centuries, so many leap years, and a rest. -/
theorem year_parts {y : Int} (low : 0 ≤ y) (high : y < 400) :
    ∃ a q r : Int, y = 100 * a + 4 * q + r ∧ startOfYear y = 36524 * a + 1461 * q + 365 * r ∧
      (0 ≤ a ∧ a < 4) ∧ (0 ≤ q ∧ q < 25) ∧ 0 ≤ r ∧ r < 4 := by
  refine ⟨y / 100, y % 100 / 4, y % 4, by omega, ?_, by omega, by omega, by omega⟩
  unfold startOfYear
  omega

theorem le_leaplessDays_startOfYear {y : Int} (low : 0 ≤ y) (high : y < 400) :
    365 * y ≤ leaplessDays (startOfYear y) := by
  obtain ⟨a, q, r, hy, start, ha, hq, hr⟩ := year_parts low high
  have fours : startOfYear y / 1460 = 25 * a + q := by omega
  have centuries : startOfYear y / 36524 = a := by omega
  have eras : startOfYear y / 146096 = 0 := by omega
  unfold leaplessDays
  omega

theorem leaplessDays_lt_of_lt_startOfYear {e y : Int} (low : 0 < y) (high : y < 400)
    (h : e < startOfYear y) : leaplessDays e < 365 * y := by
  refine Int.lt_of_le_of_lt (leaplessDays_mono (Int.le_sub_one_of_lt h)) ?_
  obtain ⟨a, q, r, hy, start, ha, hq, hr⟩ := year_parts (Int.le_of_lt low) high
  have fours : (startOfYear y - 1) / 1460 = 25 * a + q := by omega
  have centuries : (startOfYear y - 1) / 36524 ≤ a := by omega
  have eras : 0 ≤ (startOfYear y - 1) / 146096 := by omega
  unfold leaplessDays
  omega

/-- **The guessed year is the year of the day.** -/
theorem startOfYear_bounds {e y : Int} (low : 0 ≤ e) (high : e < 146097)
    (hy : y = leaplessDays e / 365) :
    (0 ≤ y ∧ y < 400) ∧ startOfYear y ≤ e ∧ (e < startOfYear (y + 1) ∨ y = 399) := by
  have first : leaplessDays 0 ≤ leaplessDays e := leaplessDays_mono low
  have last : leaplessDays e ≤ leaplessDays 146096 := leaplessDays_mono (by omega)
  have hfirst : leaplessDays 0 = 0 := rfl
  have hlast : leaplessDays 146096 = 145999 := rfl
  refine ⟨by omega, Int.not_lt.1 fun later => ?_, ?_⟩
  · rcases Int.lt_or_le 0 y with positive | _
    · have := leaplessDays_lt_of_lt_startOfYear positive (by omega) later
      omega
    · obtain rfl : y = 0 := by omega
      rw [show startOfYear 0 = 0 from rfl] at later
      omega
  · rcases Int.lt_or_le e (startOfYear (y + 1)) with before | after
    · exact Or.inl before
    · refine Or.inr (Int.le_antisymm (by omega) (Int.not_lt.1 fun early => ?_))
      have := le_leaplessDays_startOfYear (y := y + 1) (by omega) (by omega)
      have := leaplessDays_mono after
      omega

/-! ## Named days -/

/-- How a day is named: its era, the year of the era from March on, and the day of that year. -/
structure Named (days era year day : Int) : Prop where
  sum : days + 719468 = 146097 * era + startOfYear year + day
  year_low : 0 ≤ year
  year_high : year < 400
  day_low : 0 ≤ day
  day_high : day ≤ 365
  /-- The last day of a leap year belongs to one. -/
  leap : day = 365 → isLeap (year + 1 + 400 * era) = true

/-- The month of a day of the year, counted from March on. -/
def monthFromMarch (day : Int) : Int := (5 * day + 2) / 153

/-- The civil date of a day that has been named. -/
def civilOf (era year day : Int) : Civil :=
  let month := if monthFromMarch day < 10 then monthFromMarch day + 3 else monthFromMarch day - 9
  ⟨if month ≤ 2 then year + era * 400 + 1 else year + era * 400, month.toNat,
    (day - (153 * monthFromMarch day + 2) / 5 + 1).toNat⟩

theorem isLeap_of_dvd {y : Int} (four : y % 4 = 0) (century : y % 100 ≠ 0 ∨ y % 400 = 0) :
    isLeap y = true := by
  rcases century with h | h <;> simp [isLeap, four, h]

/-- A year of more than 365 days, or the last one of an era, ends in a leap year. -/
theorem isLeap_of_startOfYear {y : Int} (era : Int) (low : 0 ≤ y) (high : y < 400)
    (h : startOfYear y + 365 < startOfYear (y + 1) ∨ y = 399) :
    isLeap (y + 1 + 400 * era) = true := by
  rcases h with longer | rfl
  · unfold startOfYear at longer
    have centuries : y / 100 ≤ (y + 1) / 100 := by omega
    have fours : y / 4 < (y + 1) / 4 := by omega
    have four : (y + 1) % 4 = 0 := by omega
    have century : (y + 1) % 100 ≠ 0 := by omega
    exact isLeap_of_dvd (by omega) (by omega)
  · exact isLeap_of_dvd (by omega) (by omega)

/-- **Every day has a name, and `ofDays` finds it.** -/
theorem exists_named (days : Int) :
    ∃ era year day, Named days era year day ∧ Civil.ofDays days = civilOf era year day := by
  obtain ⟨year, hy⟩ : ∃ y, y = leaplessDays ((days + 719468) % 146097) / 365 := ⟨_, rfl⟩
  obtain ⟨⟨low, high⟩, start, next⟩ := startOfYear_bounds (by omega) (by omega) hy
  refine ⟨(days + 719468) / 146097, year, (days + 719468) % 146097 - startOfYear year,
    ⟨by omega, low, high, by omega, ?_, ?_⟩, by rw [hy]; rfl⟩
  · unfold startOfYear at *
    omega
  · intro last
    refine isLeap_of_startOfYear _ low high (next.imp (fun before => ?_) id)
    omega

variable {days era year day : Int}

theorem monthFromMarch_bounds (low : 0 ≤ day) (high : day ≤ 365) :
    0 ≤ monthFromMarch day ∧ monthFromMarch day ≤ 11 := by
  unfold monthFromMarch
  omega

/-- The month of a named day. -/
theorem month_civilOf (h : Named days era year day) :
    ((civilOf era year day).month : Int) =
      if monthFromMarch day < 10 then monthFromMarch day + 3 else monthFromMarch day - 9 := by
  have := monthFromMarch_bounds h.day_low h.day_high
  simp only [civilOf]
  split <;> omega

/-- The months before a day have no more days than come before it. -/
theorem daysOfMonths_le (day : Int) : (153 * monthFromMarch day + 2) / 5 ≤ day := by
  unfold monthFromMarch
  omega

/-- The day of the month of a named day. -/
theorem day_civilOf (era year day : Int) :
    ((civilOf era year day).day : Int) = day - (153 * monthFromMarch day + 2) / 5 + 1 := by
  have := daysOfMonths_le day
  simp only [civilOf]
  omega

/-- Counting a named day gives back its number. -/
theorem toDays_civilOf (h : Named days era year day) : (civilOf era year day).toDays = days := by
  have month := month_civilOf h
  have ofMonth := day_civilOf era year day
  have months := monthFromMarch_bounds h.day_low h.day_high
  have sum := h.sum
  have low := h.year_low
  have high := h.year_high
  have hyear : (if (civilOf era year day).month ≤ 2 then (civilOf era year day).year - 1
      else (civilOf era year day).year) = year + era * 400 := by
    simp only [civilOf] at month ⊢
    split at month <;> split <;> omega
  have hmonth : (if 2 < (civilOf era year day).month
      then ((civilOf era year day).month : Int) - 3
      else ((civilOf era year day).month : Int) + 9) = monthFromMarch day := by
    split at month <;> split <;> omega
  simp only [Civil.toDays, hyear, hmonth, ofMonth]
  unfold startOfYear at sum
  omega

/-- **Counting a named day gives back its number.** -/
theorem toDays_ofDays (days : Int) : (Civil.ofDays days).toDays = days := by
  obtain ⟨era, year, day, named, found⟩ := exists_named days
  rw [found, toDays_civilOf named]

/-- The months of a year, counted from March on, have the days they should have. -/
theorem day_le_daysIn (h : Named days era year day) :
    (civilOf era year day).day ≤
      daysIn (civilOf era year day).year (civilOf era year day).month := by
  have month := month_civilOf h
  have ofMonth := day_civilOf era year day
  have months := monthFromMarch_bounds h.day_low h.day_high
  have hday := h.day_high
  obtain ⟨m, hm⟩ : ∃ m, m = monthFromMarch day := ⟨_, rfl⟩
  rw [← hm] at month ofMonth months
  have block : 153 * m ≤ 5 * day + 2 ∧ 5 * day + 2 < 153 * m + 153 := by
    unfold monthFromMarch at hm
    omega
  rcases show m = 11 ∨ m < 11 by omega with rfl | earlier
  · -- February, the last month: its 29th day is the day 365 of the year
    have february : (civilOf era year day).month = 2 := by simp at month; omega
    have inYear : (civilOf era year day).year = year + 1 + 400 * era := by
      simp only [civilOf, ← hm]
      omega
    rw [february, inYear, daysIn]
    rcases show day = 365 ∨ day < 365 by omega with last | before
    · rw [h.leap last, if_pos rfl]
      omega
    · split <;> omega
  · unfold daysIn
    split at month <;> split <;> omega

/-- **A named day exists**, if its year is one of the calendar's. -/
theorem isValid_ofDays {days : Int} (low : firstYear ≤ (Civil.ofDays days).year)
    (high : (Civil.ofDays days).year ≤ lastYear) : (Civil.ofDays days).isValid = true := by
  obtain ⟨era, year, day, named, found⟩ := exists_named days
  have month := month_civilOf named
  have ofMonth := day_civilOf era year day
  have months := monthFromMarch_bounds named.day_low named.day_high
  have most := day_le_daysIn named
  have least := daysOfMonths_le day
  rw [found] at low high ⊢
  simp only [Civil.isValid, Bool.and_eq_true, decide_eq_true_eq]
  split at month <;> exact ⟨⟨⟨⟨⟨low, high⟩, by omega⟩, by omega⟩, by omega⟩, most⟩

end RpcBridge.Calendar
