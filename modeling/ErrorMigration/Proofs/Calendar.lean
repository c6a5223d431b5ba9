import ErrorMigration.Moment
import Mathlib.Tactic

/-! The calendar and the count of days. A day is placed in an era of four hundred years that begin in March, so that a
leap day is the last of its year; there the two directions of the count are inverse, and every day that is counted is
one of the calendar. The months of all years stand in one row, each as long as it should be; so days are counted in the
order of their months, and in a month in their own. -/
namespace ErrorMigration.Day

/-- A day by its era, the century of the era, the four years of the century, the year of these and the day of that
year. A year has a day more if it is the last of its four; a century has the last of these only in the last century. -/
structure Cycle where
  era : Int
  century : Nat
  quad : Nat
  year : Nat
  dayOfYear : Nat
  century_le : century ≤ 3
  quad_le : quad ≤ 24
  year_le : year ≤ 3
  dayOfYear_le : dayOfYear ≤ 365
  leap : dayOfYear = 365 → year = 3 ∧ (quad = 24 → century = 3)

namespace Cycle

def dayOfEra (c : Cycle) : Nat := 36524 * c.century + 1461 * c.quad + 365 * c.year + c.dayOfYear

def yearOfEra (c : Cycle) : Nat := 100 * c.century + 4 * c.quad + c.year

def number (c : Cycle) : Int := c.era * 146097 + c.dayOfEra - 719468

def marchMonth (c : Cycle) : Nat := (5 * c.dayOfYear + 2) / 153

theorem dayOfEra_lt (c : Cycle) : c.dayOfEra < 146097 := by
  have := c.century_le
  have := c.quad_le
  have := c.year_le
  have := c.dayOfYear_le
  have := c.leap
  unfold dayOfEra
  omega

theorem yearOfEra_lt (c : Cycle) : c.yearOfEra < 400 := by
  have := c.century_le
  have := c.quad_le
  have := c.year_le
  unfold yearOfEra
  omega

/-- The days of an era in front of a year. -/
theorem dayOfEra_eq (c : Cycle) :
    c.dayOfEra = c.yearOfEra * 365 + c.yearOfEra / 4 - c.yearOfEra / 100 + c.dayOfYear := by
  have := c.quad_le
  have := c.year_le
  unfold dayOfEra yearOfEra
  omega

theorem marchMonth_le (c : Cycle) : c.marchMonth ≤ 11 := by
  have := c.dayOfYear_le
  unfold marchMonth
  omega

/-- The calendar day. January and February belong to the next year. -/
def day (c : Cycle) : Day where
  year := c.yearOfEra + c.era * 400 + (if c.marchMonth < 10 then 0 else 1)
  month := if c.marchMonth < 10 then c.marchMonth + 3 else c.marchMonth - 9
  day := c.dayOfYear - (153 * c.marchMonth + 2) / 5 + 1

/-- Every day has its place. -/
theorem exists_number_eq (n : Int) : ∃ c : Cycle, c.number = n := by
  have within : (n + 719468) % 146097 < 146097 := Int.emod_lt_of_pos _ (by omega)
  have positive : 0 ≤ (n + 719468) % 146097 := Int.emod_nonneg _ (by omega)
  obtain ⟨e,rest⟩ := Int.eq_ofNat_of_zero_le positive
  rw [rest] at within
  let century := min (e / 36524) 3
  let quad := (e - 36524 * century) / 1461
  let year := min ((e - 36524 * century - 1461 * quad) / 365) 3
  let c : Cycle :=
    { era := (n + 719468) / 146097
      century
      quad
      year
      dayOfYear := e - 36524 * century - 1461 * quad - 365 * year
      century_le := by omega
      quad_le := by omega
      year_le := by omega
      dayOfYear_le := by omega
      leap := by omega }
  have same : c.dayOfEra = e := by
    have : c.dayOfEra = 36524 * century + 1461 * quad + 365 * year +
      (e - 36524 * century - 1461 * quad - 365 * year) := rfl
    omega
  refine ⟨c,?_⟩
  have era : c.era = (n + 719468) / 146097 := rfl
  rw [number,same,era]
  omega

/-- Whole centuries are counted off the day of the era; the last day of an era counts as one more, and is taken back. -/
theorem centuries_eq (c : Cycle) : c.dayOfEra / 36524 = c.century + c.dayOfEra / 146096 := by
  have century := c.century_le
  have quad := c.quad_le
  have year := c.year_le
  have day := c.dayOfYear_le
  have leap := c.leap
  have split : c.dayOfEra = 36524 * c.century + (1461 * c.quad + 365 * c.year + c.dayOfYear) := by
    unfold dayOfEra
    omega
  by_cases last : c.dayOfEra = 146096
  · rw [last] at split ⊢
    omega
  · have below := c.dayOfEra_lt
    have rest : (1461 * c.quad + 365 * c.year + c.dayOfYear) / 36524 = 0 := by
      rw [Nat.div_eq_zero_iff]
      omega
    rw [Nat.div_eq_of_lt (by omega : c.dayOfEra < 146096),split,Nat.mul_add_div (by omega),rest]

/-- Days over, beyond the years of 365 days and the leap days of the years before. The one that makes up a group of four
years is there only from some day of a last year on. -/
theorem leapDays_eq (c : Cycle) : ∃ extra ≤ 1, c.dayOfEra / 1460 = 25 * c.century + c.quad + extra ∧
    extra ≤ c.dayOfYear ∧ (c.dayOfYear = 365 → extra = 1) := by
  have century := c.century_le
  have quad := c.quad_le
  have year := c.year_le
  have day := c.dayOfYear_le
  have leap := c.leap
  have split : c.dayOfEra = 1460 * (25 * c.century + c.quad) +
      (24 * c.century + c.quad + 365 * c.year + c.dayOfYear) := by
    unfold dayOfEra
    omega
  refine ⟨(24 * c.century + c.quad + 365 * c.year + c.dayOfYear) / 1460,by omega,?_,by omega,by omega⟩
  rw [split,Nat.mul_add_div (by omega)]

/-- The estimate of the year from the day of the era is exact. -/
theorem yearOfEra_eq (c : Cycle) : (c.dayOfEra - c.dayOfEra / 1460 + c.dayOfEra / 36524 - c.dayOfEra / 146096) / 365 =
    c.yearOfEra := by
  have day := c.dayOfYear_le
  obtain ⟨extra,_,leapDays,within,last⟩ := c.leapDays_eq
  have years : c.dayOfEra - c.dayOfEra / 1460 + c.dayOfEra / 36524 - c.dayOfEra / 146096 =
      365 * c.yearOfEra + (c.dayOfYear - extra) := by
    rw [leapDays,c.centuries_eq]
    unfold dayOfEra yearOfEra
    omega
  rw [years]
  omega

end Cycle

theorem ofNumber_number (c : Cycle) : ofNumber c.number = c.day := by
  have shifted : c.number + 719468 = c.dayOfEra + 146097 * c.era := by unfold Cycle.number; ring
  have below : (c.dayOfEra : Int) < 146097 := by exact_mod_cast c.dayOfEra_lt
  have era : (c.number + 719468) / 146097 = c.era := by omega
  have rest : ((c.number + 719468) % 146097).toNat = c.dayOfEra := by omega
  have year := c.yearOfEra_eq
  have dayOfYear : c.dayOfEra - (365 * c.yearOfEra + c.yearOfEra / 4 - c.yearOfEra / 100) = c.dayOfYear := by
    have := c.dayOfEra_eq
    omega
  unfold ofNumber
  simp only [era,rest,year,dayOfYear]
  rw [← Cycle.marchMonth]
  have last := c.marchMonth_le
  by_cases early : c.marchMonth < 10
  · simp only [early,if_true,Cycle.day]
    rw [if_neg (by omega)]
  · simp only [early,if_false,Cycle.day]
    rw [if_pos (by omega)]

theorem toNumber_day (c : Cycle) : c.day.toNumber = c.number := by
  have last := c.marchMonth_le
  have below := c.yearOfEra_lt
  have month : c.day.month = if c.marchMonth < 10 then c.marchMonth + 3 else c.marchMonth - 9 := rfl
  have early : c.day.month ≤ 2 ↔ ¬ c.marchMonth < 10 := by
    rw [month]
    split <;> omega
  have year : c.day.year - (if c.day.month ≤ 2 then 1 else 0) = c.yearOfEra + 400 * c.era := by
    have : c.day.year = c.yearOfEra + c.era * 400 + (if c.marchMonth < 10 then 0 else 1) := rfl
    rw [this,if_congr early rfl rfl]
    split <;> omega
  have era : (c.yearOfEra + 400 * c.era : Int) / 400 = c.era := by omega
  have yearOfEra : ((c.yearOfEra + 400 * c.era : Int) % 400).toNat = c.yearOfEra := by omega
  have marchMonth : (if c.day.month > 2 then c.day.month - 3 else c.day.month + 9) = c.marchMonth := by
    rw [month]
    split <;> split <;> omega
  have dayOfYear : (153 * c.marchMonth + 2) / 5 + c.day.day - 1 = c.dayOfYear := by
    have : c.day.day = c.dayOfYear - (153 * c.marchMonth + 2) / 5 + 1 := rfl
    have : c.marchMonth = (5 * c.dayOfYear + 2) / 153 := rfl
    omega
  unfold toNumber
  simp only [year,era,yearOfEra,marchMonth,dayOfYear,← c.dayOfEra_eq]
  rfl

/-- The count of days loses nothing. -/
theorem toNumber_ofNumber (n : Int) : (ofNumber n).toNumber = n := by
  obtain ⟨c,rfl⟩ := Cycle.exists_number_eq n
  rw [ofNumber_number,toNumber_day]

/-- A leap day comes at the end of the last of four years, and the calendar has it. -/
theorem isLeapYear_of_leap (c : Cycle) (last : c.dayOfYear = 365) : isLeapYear c.day.year = true := by
  obtain ⟨year,century⟩ := c.leap last
  have := c.quad_le
  have := c.century_le
  have late : ¬ c.marchMonth < 10 := by
    unfold Cycle.marchMonth
    omega
  have : c.day.year = c.yearOfEra + c.era * 400 + 1 := by
    simp only [Cycle.day,late,if_false]
  have : c.yearOfEra = 100 * c.century + 4 * c.quad + c.year := rfl
  simp only [isLeapYear,Bool.and_eq_true,Bool.or_eq_true,decide_eq_true_eq]
  omega

theorem daysIn_eq_thirty {year : Int} {month : Nat} (short : month = 4 ∨ month = 6 ∨ month = 9 ∨ month = 11) :
    daysIn year month = 30 := by
  rcases short with rfl | rfl | rfl | rfl <;> rfl

theorem daysIn_eq_thirtyOne {year : Int} {month : Nat} (notFebruary : month ≠ 2)
    (long : ¬ (month = 4 ∨ month = 6 ∨ month = 9 ∨ month = 11)) : daysIn year month = 31 := by
  simp only [not_or] at long
  simp [daysIn,notFebruary,long]

structure IsOfMonth (d : Day) : Prop where
  month_pos : 1 ≤ d.month
  month_le : d.month ≤ 12
  day_pos : 1 ≤ d.day
  day_le : d.day ≤ daysIn d.year d.month

theorem Cycle.isOfMonth_day (c : Cycle) : IsOfMonth c.day := by
  have last := c.marchMonth_le
  have whole := c.dayOfYear_le
  have leap := isLeapYear_of_leap c
  have month : c.day.month = if c.marchMonth < 10 then c.marchMonth + 3 else c.marchMonth - 9 := rfl
  have day : c.day.day = c.dayOfYear - (153 * c.marchMonth + 2) / 5 + 1 := rfl
  have march : c.marchMonth = (5 * c.dayOfYear + 2) / 153 := rfl
  refine ⟨by split at month <;> omega,by split at month <;> omega,by omega,?_⟩
  by_cases february : c.day.month = 2
  · have eleventh : c.marchMonth = 11 := by split at month <;> omega
    simp only [daysIn,february,if_true]
    split
    · omega
    · have notLast : c.dayOfYear ≠ 365 := fun at_end => absurd (leap at_end) ‹_›
      omega
  · by_cases short : c.day.month = 4 ∨ c.day.month = 6 ∨ c.day.month = 9 ∨ c.day.month = 11
    · rw [daysIn_eq_thirty short]
      split at month <;> omega
    · rw [daysIn_eq_thirtyOne february short]
      omega

theorem daysIn_le (year : Int) (month : Nat) : daysIn year month ≤ 31 := by
  unfold daysIn
  split_ifs <;> omega

/-- A day that is counted is one of its month. -/
theorem isOfMonth_ofNumber (n : Int) : IsOfMonth (ofNumber n) := by
  obtain ⟨c,rfl⟩ := Cycle.exists_number_eq n
  rw [ofNumber_number]
  exact c.isOfMonth_day

/-- Two digits are enough for the month and the day. -/
theorem ofNumber_within (n : Int) : (ofNumber n).month ≤ 12 ∧ (ofNumber n).day ≤ 31 :=
  ⟨(isOfMonth_ofNumber n).month_le,(isOfMonth_ofNumber n).day_le.trans (daysIn_le _ _)⟩

/-- A day that is counted is one of the calendar, as far as this covers its year. -/
theorem isValid_ofNumber {n : Int} (covered : covers (ofNumber n).year = true) : (ofNumber n).isValid = true := by
  obtain ⟨month_pos,month_le,day_pos,day_le⟩ := isOfMonth_ofNumber n
  simp [isValid,covered,month_pos,month_le,day_pos,day_le]

def daysBefore (year : Int) : Int := 365 * year + year / 4 - year / 100 + year / 400

theorem toNumber_eq {d : Day} (day : 1 ≤ d.day) :
    d.toNumber = daysBefore (d.year - (if d.month ≤ 2 then 1 else 0)) +
      (153 * (if d.month > 2 then d.month - 3 else d.month + 9 : Nat) + 2) / 5 + d.day - 719469 := by
  unfold toNumber daysBefore
  generalize d.year - (if d.month ≤ 2 then 1 else 0) = year
  generalize (if d.month > 2 then d.month - 3 else d.month + 9) = march
  dsimp only
  omega

theorem daysBefore_eq (year : Int) :
    daysBefore year = daysBefore (year - 1) + 365 + if isLeapYear year then 1 else 0 := by
  simp only [daysBefore,isLeapYear,Bool.and_eq_true,Bool.or_eq_true,decide_eq_true_eq]
  split <;> omega

/-- The first day of a month. Months are numbered through all years, from the January of the year zero. -/
def firstOf (month : Int) : Day := ⟨month / 12,(month % 12).toNat + 1,1⟩

theorem firstOf_add (year : Int) {r : Nat} (within : r < 12) : firstOf (12 * year + r) = ⟨year,r + 1,1⟩ := by
  rw [firstOf,Day.mk.injEq]
  omega

/-- A month has its number of days. -/
theorem toNumber_firstOf_succ (month : Int) : (firstOf (month + 1)).toNumber =
    (firstOf month).toNumber + daysIn (firstOf month).year (firstOf month).month := by
  obtain ⟨year,r,within,rfl⟩ : ∃ (year : Int) (r : Nat), r < 12 ∧ month = 12 * year + r :=
    ⟨month / 12,(month % 12).toNat,by omega,by omega⟩
  rw [firstOf_add year within,toNumber_eq (by simp [firstOf]),toNumber_eq (by simp)]
  by_cases december : r = 11
  · have next : (12 * year + r + 1 : Int) = 12 * (year + 1) + (0 : Nat) := by omega
    rw [next,firstOf_add (year + 1) (by omega)]
    simp [daysIn,december]
    omega
  · have next : (12 * year + r + 1 : Int) = 12 * year + (r + 1 : Nat) := by omega
    rw [next,firstOf_add year (by omega)]
    by_cases february : r = 1
    · -- the leap day is the only one that depends on the year
      have leap := daysBefore_eq year
      simp only [february,daysIn]
      split at leap <;> simp_all <;> omega
    · interval_cases r <;> simp [daysIn] at february december ⊢ <;> omega

theorem toNumber_firstOf_strictMono : StrictMono fun month => (firstOf month).toNumber := by
  refine strictMono_int_of_lt_succ fun month => ?_
  have days : 28 ≤ daysIn (firstOf month).year (firstOf month).month := by
    unfold daysIn
    split_ifs <;> omega
  rw [toNumber_firstOf_succ]
  omega

def monthNumber (d : Day) : Int := 12 * d.year + d.month - 1

theorem IsOfMonth.firstOf_monthNumber {d : Day} (proper : IsOfMonth d) :
    firstOf d.monthNumber = ⟨d.year,d.month,1⟩ := by
  have month_pos := proper.month_pos
  have month_le := proper.month_le
  rw [monthNumber,firstOf,Day.mk.injEq]
  omega

theorem IsOfMonth.toNumber_eq {d : Day} (proper : IsOfMonth d) :
    d.toNumber = (firstOf d.monthNumber).toNumber + d.day - 1 := by
  rw [proper.firstOf_monthNumber,Day.toNumber_eq proper.day_pos,Day.toNumber_eq (by simp)]
  simp only
  omega

/-- Of two days the one that is counted first stands in an earlier month, or earlier in the same one. -/
theorem IsOfMonth.before {d d' : Day} (proper : IsOfMonth d) (proper' : IsOfMonth d')
    (less : d.toNumber < d'.toNumber) :
    d.monthNumber < d'.monthNumber ∨ d.monthNumber = d'.monthNumber ∧ d.day < d'.day := by
  have whole : (firstOf d'.monthNumber).toNumber + daysIn d'.year d'.month =
      (firstOf (d'.monthNumber + 1)).toNumber := by
    rw [toNumber_firstOf_succ,proper'.firstOf_monthNumber]
  rw [proper.toNumber_eq,proper'.toNumber_eq] at less
  have day_pos := proper.day_pos
  have day_le := proper'.day_le
  rcases lt_trichotomy d.monthNumber d'.monthNumber with earlier | same | later
  · exact .inl earlier
  · rw [same] at less
    exact .inr ⟨same,by omega⟩
  · have past : (firstOf (d'.monthNumber + 1)).toNumber ≤ (firstOf d.monthNumber).toNumber :=
      toNumber_firstOf_strictMono.monotone (by omega)
    omega

end ErrorMigration.Day
