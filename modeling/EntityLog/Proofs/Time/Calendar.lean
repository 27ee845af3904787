import EntityLog.Time.Instant
/-!
# The civil calendar

`civilFromDays` and `daysFromCivil` count days in 400-year eras that start on March 1 of a year
divisible by 400, so that a leap day is the last day of its year. An era has 146097 days: four
centuries of 36524 days and one more day, the last leap day of the era; a century is 24 blocks
of four years of 1461 days and one block of 1460, whose last year has no leap day.

The parts of a day's date are named here as `civilFromDays` computes them. From the way a day of
the era splits into centuries, four-year blocks and years, the year of the era is found below 400
and the day of the year below 366, the 366th day only in a leap year; months of the year counted
from March start at `monthStart`. From these, every day has a date that exists
(`civilFromDays_isDate`), and `daysFromCivil` gives the day back (`daysFromCivil_civilFromDays`).
-/

namespace EntityLog.Time

/-! ## The parts of a date -/

/-- The era of 400 years that a day falls in, eras starting on 0000-03-01. -/
def eraOf (days : Int) : Int := (days + 719468) / 146097

/-- The day of its era that a day is, from 0. -/
def dayOfEra (days : Int) : Int := days + 719468 - eraOf days * 146097

/-- The year of its era that a day of the era falls in, years starting on March 1. -/
def yearOfEra (doe : Int) : Int := (doe - doe / 1460 + doe / 36524 - doe / 146096) / 365

/-- The day of its era on which a year of the era starts. -/
def yearStart (yoe : Int) : Int := 365 * yoe + yoe / 4 - yoe / 100

/-- The day of its year that a day of an era is, from 0 on March 1. -/
def dayOfYear (doe : Int) : Int := doe - yearStart (yearOfEra doe)

/-- The month that a day of the year falls in, counted from 0 for March. -/
def marchMonth (doy : Int) : Int := (5 * doy + 2) / 153

/-- The day of the year on which a month counted from March starts. -/
def monthStart (mp : Int) : Int := (153 * mp + 2) / 5

/-- The month of the calendar, 1 to 12, of a month counted from March. -/
def calendarMonth (mp : Int) : Int := if mp < 10 then mp + 3 else mp - 9

theorem civilFromDays_eq (days : Int) : civilFromDays days =
    (yearOfEra (dayOfEra days) + eraOf days * 400 +
        (if calendarMonth (marchMonth (dayOfYear (dayOfEra days))) ≤ 2 then 1 else 0),
      (calendarMonth (marchMonth (dayOfYear (dayOfEra days)))).toNat,
      (dayOfYear (dayOfEra days) - monthStart (marchMonth (dayOfYear (dayOfEra days))) +
        1).toNat) :=
  rfl

/-! ## Years of an era -/

theorem dayOfEra_bounds (days : Int) : 0 ≤ dayOfEra days ∧ dayOfEra days < 146097 := by
  unfold dayOfEra eraOf
  omega

/-- Before the last day of an era, the year of the era is read off its century, its four-year
block in the century and its year in the block, the leap day counting into the block's last
year. -/
theorem yearOfEra_of_lt (doe : Int) (h0 : 0 ≤ doe) (hlast : doe < 146096) :
    yearOfEra doe = 100 * (doe / 36524) + 4 * (doe % 36524 / 1461) +
      min (doe % 36524 % 1461 / 365) 3 := by
  unfold yearOfEra
  have hera : doe / 146096 = 0 := by omega
  rw [hera]
  -- `doe / 1460` counts one day more than the blocks once the leap days of the century have
  -- added up to the rest of a block.
  by_cases hextra : 1460 - 24 * (doe / 36524) - doe % 36524 / 1461 ≤ doe % 36524 % 1461
  · have hblocks : doe / 1460 = 25 * (doe / 36524) + doe % 36524 / 1461 + 1 := by omega
    rw [hblocks]
    omega
  · have hblocks : doe / 1460 = 25 * (doe / 36524) + doe % 36524 / 1461 := by omega
    rw [hblocks]
    omega

theorem yearStart_block (cen q t : Int) (hq : 0 ≤ q ∧ q ≤ 24) (ht : 0 ≤ t ∧ t ≤ 3) :
    yearStart (100 * cen + 4 * q + t) = 36524 * cen + 1461 * q + 365 * t := by
  unfold yearStart
  omega

/-- A day of an era falls in a year of the era below 400, as its day below 366; the 366th day
is the leap day of a leap year. -/
theorem dayOfYear_bounds (doe : Int) (h0 : 0 ≤ doe) (h1 : doe < 146097) :
    0 ≤ yearOfEra doe ∧ yearOfEra doe < 400 ∧ 0 ≤ dayOfYear doe ∧ dayOfYear doe ≤ 365 ∧
      (dayOfYear doe = 365 → isLeapYear (yearOfEra doe + 1) = true) := by
  unfold dayOfYear
  by_cases hlast : doe = 146096
  · subst hlast
    decide
  · rw [yearOfEra_of_lt doe h0 (by omega)]
    have hshort : doe % 36524 / 1461 = 24 → doe % 36524 % 1461 ≤ 1459 := by omega
    rw [yearStart_block _ _ _ (by omega) (by omega)]
    refine ⟨by omega, by omega, by omega, by omega, ?_⟩
    intro h365
    unfold isLeapYear
    simp only [Bool.or_eq_true, Bool.and_eq_true, beq_iff_eq, bne_iff_ne, ne_eq]
    omega

theorem isLeapYear_add_era (y k : Int) : isLeapYear (y + k * 400) = isLeapYear y := by
  unfold isLeapYear
  rw [Bool.eq_iff_iff]
  simp only [Bool.or_eq_true, Bool.and_eq_true, beq_iff_eq, bne_iff_ne, ne_eq]
  omega

/-! ## Months of a year -/

theorem marchMonth_bounds (doy : Int) (h0 : 0 ≤ doy) (h365 : doy ≤ 365) :
    0 ≤ marchMonth doy ∧ marchMonth doy ≤ 11 ∧ monthStart (marchMonth doy) ≤ doy ∧
      (marchMonth doy ≤ 10 → doy < monthStart (marchMonth doy + 1)) ∧
      (marchMonth doy = 11 → doy - monthStart 11 ≤ 28) := by
  unfold marchMonth monthStart
  omega

/-- The months from March to January are as long as their starts say. -/
theorem daysInMonth_calendarMonth (y mp : Int) (h0 : 0 ≤ mp) (h10 : mp ≤ 10) :
    (daysInMonth y (calendarMonth mp).toNat : Int) = monthStart (mp + 1) - monthStart mp := by
  rcases (show mp = 0 ∨ mp = 1 ∨ mp = 2 ∨ mp = 3 ∨ mp = 4 ∨ mp = 5 ∨ mp = 6 ∨ mp = 7 ∨ mp = 8 ∨
      mp = 9 ∨ mp = 10 by omega) with
    h | h | h | h | h | h | h | h | h | h | h <;> subst h <;> rfl

theorem le_daysInMonth_two (y : Int) : 28 ≤ daysInMonth y 2 := by
  unfold daysInMonth
  simp only [beq_self_eq_true, if_true]
  split <;> omega

theorem daysInMonth_two_of_leap {y : Int} (hleap : isLeapYear y = true) :
    daysInMonth y 2 = 29 := by
  simp [daysInMonth, hleap]

/-! ## Dates and days -/

/-- A month from 1 to 12 and a day that exists in that month of the year. -/
def IsDate (y : Int) (m d : Nat) : Prop := 1 ≤ m ∧ m ≤ 12 ∧ 1 ≤ d ∧ d ≤ daysInMonth y m

instance (y : Int) (m d : Nat) : Decidable (IsDate y m d) := by
  unfold IsDate
  infer_instance

/-- Every day has a date that exists. -/
theorem civilFromDays_isDate (days : Int) :
    IsDate (civilFromDays days).1 (civilFromDays days).2.1 (civilFromDays days).2.2 := by
  have ⟨he0, he1⟩ := dayOfEra_bounds days
  have ⟨hy0, hy1, hd0, hd1, hleap⟩ := dayOfYear_bounds _ he0 he1
  have ⟨hm0, hm1, hm2, hlen, hfeb⟩ := marchMonth_bounds _ hd0 hd1
  rw [civilFromDays_eq]
  dsimp only
  generalize marchMonth (dayOfYear (dayOfEra days)) = mp at *
  generalize dayOfYear (dayOfEra days) = doy at *
  generalize hyear : yearOfEra (dayOfEra days) + eraOf days * 400 +
    (if calendarMonth mp ≤ 2 then 1 else 0) = y
  have hmonth : 1 ≤ (calendarMonth mp).toNat ∧ (calendarMonth mp).toNat ≤ 12 := by
    unfold calendarMonth
    split <;> omega
  refine ⟨hmonth.1, hmonth.2, by omega, ?_⟩
  -- Only February, the last month from March, depends on the year.
  by_cases hlow : mp ≤ 10
  · have hdays := daysInMonth_calendarMonth y mp hm0 hlow
    have := hlen hlow
    omega
  · have hmp : mp = 11 := by omega
    subst hmp
    have hfebruary : (calendarMonth 11).toNat = 2 := rfl
    have hstart : monthStart 11 = 337 := rfl
    have := hfeb rfl
    have := le_daysInMonth_two y
    rw [hfebruary]
    by_cases h365 : doy = 365
    · have hleapYear : isLeapYear y = true := by
        rw [← hyear, show calendarMonth 11 = 2 from rfl, if_pos (by decide), Int.add_right_comm,
          isLeapYear_add_era]
        exact hleap h365
      rw [daysInMonth_two_of_leap hleapYear]
      omega
    · omega

/-- The day of a date in the year of an era, the month counted from March. -/
theorem daysFromCivil_eq (era yoe mp d : Int) (hyoe : 0 ≤ yoe ∧ yoe < 400)
    (hmp : 0 ≤ mp ∧ mp ≤ 11) (hd : 1 ≤ d) :
    daysFromCivil (yoe + era * 400 + (if calendarMonth mp ≤ 2 then 1 else 0))
        (calendarMonth mp).toNat d.toNat =
      era * 146097 + yearStart yoe + monthStart mp + d - 1 - 719468 := by
  unfold daysFromCivil calendarMonth yearStart monthStart
  by_cases hlow : mp < 10
  · have hera : (yoe + era * 400) / 400 = era := by omega
    have hmonth : ((mp + 3).toNat : Int) = mp + 3 := by omega
    simp only [if_pos hlow, show ¬(mp + 3 ≤ 2) by omega, Int.add_zero,
      show ¬((mp + 3).toNat ≤ 2) by omega, show (mp + 3).toNat > 2 by omega, hera, hmonth,
      ↓reduceIte]
    omega
  · have hera : (yoe + era * 400 + 1 - 1) / 400 = era := by omega
    have hmonth : ((mp - 9).toNat : Int) = mp - 9 := by omega
    simp only [if_neg hlow, show mp - 9 ≤ 2 by omega,
      show (mp - 9).toNat ≤ 2 by omega, show ¬((mp - 9).toNat > 2) by omega, hera, hmonth,
      ↓reduceIte]
    omega

/-- The date of a day gives the day back. -/
theorem daysFromCivil_civilFromDays (days : Int) :
    daysFromCivil (civilFromDays days).1 (civilFromDays days).2.1 (civilFromDays days).2.2 =
      days := by
  have ⟨he0, he1⟩ := dayOfEra_bounds days
  have ⟨hy0, hy1, hd0, hd1, _⟩ := dayOfYear_bounds _ he0 he1
  have ⟨hm0, hm1, hm2, _, _⟩ := marchMonth_bounds _ hd0 hd1
  rw [civilFromDays_eq, daysFromCivil_eq _ _ _ _ ⟨hy0, hy1⟩ ⟨hm0, hm1⟩ (by omega)]
  have hdoe : dayOfEra days = days + 719468 - eraOf days * 146097 := rfl
  have hdoy : dayOfYear (dayOfEra days) =
      dayOfEra days - yearStart (yearOfEra (dayOfEra days)) := rfl
  omega

example : civilFromDays 20454 = (2026, 1, 1) := by decide

end EntityLog.Time
