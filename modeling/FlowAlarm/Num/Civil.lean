import Mathlib.Tactic.Common

/-!
# Civil dates

The date of a day in the proleptic Gregorian calendar and the day of a date,
counted from 1 January 1970. Years begin in March here, so that the leap day is
the last of its year.
-/

namespace FlowAlarm

/-- A date: its year, its month from 1 and its day from 1. -/
structure Date where
  year : Int
  month : Int
  day : Int
  deriving DecidableEq

namespace Date

/-- Days from 1 March 0 to 1 January 1970. -/
def epochDay : Int := 719468

/-- The cycles a day of a 400-year era lies in: the century, the fourth of its
years and the year in there. The last century and the last year are the longer ones. -/
def century (doe : Int) : Int := doe / 36524 - doe / 36524 / 4

def fourth (doe : Int) : Int := (doe - 36524 * century doe) / 1461

def lastYear (d : Int) : Int := d / 365 - d / 365 / 4

/-- The year of an era, and the day of that year, of a day of the era. -/
def yearOfEra (doe : Int) : Int × Int :=
  let d := doe - 36524 * century doe - 1461 * fourth doe
  (100 * century doe + 4 * fourth doe + lastYear d, d - 365 * lastYear d)

/-- The days of an era before a year of it. -/
def daysBefore (yoe : Int) : Int := 365 * yoe + yoe / 4 - yoe / 100

/-- The month and the day of a day of a year that began in March. -/
def monthDay (doy : Int) : Int × Int :=
  let m := (5 * doy + 2) / 153
  (if m < 10 then m + 3 else m - 9, doy - (153 * m + 2) / 5 + 1)

def ofDays (z : Int) : Date :=
  let day := z + epochDay
  let y := yearOfEra (day % 146097)
  let md := monthDay y.2
  { year := y.1 + 400 * (day / 146097) + if md.1 ≤ 2 then 1 else 0,
    month := md.1, day := md.2 }

def toDays (d : Date) : Int :=
  let y := if d.month ≤ 2 then d.year - 1 else d.year
  let m := if d.month ≤ 2 then d.month + 9 else d.month - 3
  146097 * (y / 400) + daysBefore (y % 400) + (153 * m + 2) / 5 + d.day - 1 - epochDay

theorem century_bounds {doe : Int} (h0 : 0 ≤ doe) (h1 : doe < 146097) :
    0 ≤ century doe ∧ century doe ≤ 3 ∧ 0 ≤ doe - 36524 * century doe ∧
      (doe - 36524 * century doe < 36524 ∨
        century doe = 3 ∧ doe - 36524 * century doe = 36524) := by
  unfold century
  omega

theorem lastYear_bounds {d : Int} (h0 : 0 ≤ d) (h1 : d < 1461) :
    0 ≤ lastYear d ∧ lastYear d ≤ 3 ∧ 0 ≤ d - 365 * lastYear d ∧
      d - 365 * lastYear d ≤ 365 := by
  unfold lastYear
  omega

/-- A day of an era is a day of a year of it. -/
theorem yearOfEra_spec {doe : Int} (h0 : 0 ≤ doe) (h1 : doe < 146097) :
    0 ≤ (yearOfEra doe).1 ∧ (yearOfEra doe).1 < 400 ∧ 0 ≤ (yearOfEra doe).2 ∧
      (yearOfEra doe).2 ≤ 365 ∧ daysBefore (yearOfEra doe).1 + (yearOfEra doe).2 = doe := by
  obtain ⟨hc0, hc3, hd0, hd1⟩ := century_bounds h0 h1
  have hq : 0 ≤ fourth doe ∧ fourth doe ≤ 24 ∧
      0 ≤ doe - 36524 * century doe - 1461 * fourth doe ∧
      doe - 36524 * century doe - 1461 * fourth doe < 1461 := by
    unfold fourth
    omega
  obtain ⟨hq0, hq24, hr0, hr1⟩ := hq
  obtain ⟨ha0, ha3, hy0, hy1⟩ := lastYear_bounds hr0 hr1
  have hfour : ∀ c q a : Int, 0 ≤ a → a ≤ 3 → (100 * c + 4 * q + a) / 4 = 25 * c + q := by omega
  have hhundred : ∀ c q a : Int, 0 ≤ q → q ≤ 24 → 0 ≤ a → a ≤ 3 →
      (100 * c + 4 * q + a) / 100 = c := by omega
  unfold yearOfEra daysBefore
  dsimp only
  rw [hfour _ _ _ ha0 ha3, hhundred _ _ _ hq0 hq24 ha0 ha3]
  omega

theorem monthDay_bounds {doy : Int} (h0 : 0 ≤ doy) (h1 : doy ≤ 365) :
    1 ≤ (monthDay doy).1 ∧ (monthDay doy).1 ≤ 12 ∧ 1 ≤ (monthDay doy).2 ∧
      (monthDay doy).2 ≤ 31 := by
  unfold monthDay
  dsimp only
  split <;> omega

theorem monthDay_spec {doy : Int} (h0 : 0 ≤ doy) (h1 : doy ≤ 365) :
    (153 * (if (monthDay doy).1 ≤ 2 then (monthDay doy).1 + 9 else (monthDay doy).1 - 3) + 2) / 5 +
      (monthDay doy).2 - 1 = doy := by
  unfold monthDay
  dsimp only
  split
  · rw [if_neg (by omega)]
    omega
  · rw [if_pos (by omega)]
    omega

theorem era_bounds (z : Int) : 0 ≤ z % 146097 ∧ z % 146097 < 146097 :=
  ⟨Int.emod_nonneg _ (by decide), Int.emod_lt_of_pos _ (by decide)⟩

theorem ofDays_bounds (z : Int) :
    1 ≤ (ofDays z).month ∧ (ofDays z).month ≤ 12 ∧ 1 ≤ (ofDays z).day ∧ (ofDays z).day ≤ 31 := by
  obtain ⟨h0, h1⟩ := era_bounds (z + epochDay)
  obtain ⟨-, -, hy0, hy1, -⟩ := yearOfEra_spec h0 h1
  exact monthDay_bounds hy0 hy1

/-- **The date of a day names the day.** -/
theorem toDays_ofDays (z : Int) : (ofDays z).toDays = z := by
  obtain ⟨h0, h1⟩ := era_bounds (z + epochDay)
  obtain ⟨hn0, hn1, hy0, hy1, hsum⟩ := yearOfEra_spec h0 h1
  have hmonth : (153 * (if (ofDays z).month ≤ 2 then (ofDays z).month + 9
      else (ofDays z).month - 3) + 2) / 5 + (ofDays z).day - 1 =
      (yearOfEra ((z + epochDay) % 146097)).2 := monthDay_spec hy0 hy1
  have hyear : (if (ofDays z).month ≤ 2 then (ofDays z).year - 1 else (ofDays z).year) =
      (yearOfEra ((z + epochDay) % 146097)).1 + 400 * ((z + epochDay) / 146097) := by
    unfold ofDays
    dsimp only
    split <;> omega
  have hera : ((yearOfEra ((z + epochDay) % 146097)).1 + 400 * ((z + epochDay) / 146097)) / 400 =
      (z + epochDay) / 146097 := by omega
  have hmod : ((yearOfEra ((z + epochDay) % 146097)).1 + 400 * ((z + epochDay) / 146097)) % 400 =
      (yearOfEra ((z + epochDay) % 146097)).1 := by omega
  have hdays : 146097 * ((z + epochDay) / 146097) + (z + epochDay) % 146097 = z + epochDay :=
    Int.mul_ediv_add_emod _ _
  unfold toDays
  rw [hyear]
  dsimp only
  rw [hera, hmod]
  omega

/-- A day from the year 0 on has a year from 0 on. -/
theorem ofDays_year {z : Int} (h : -epochDay ≤ z) : 0 ≤ (ofDays z).year := by
  obtain ⟨h0, h1⟩ := era_bounds (z + epochDay)
  obtain ⟨hn0, -⟩ := yearOfEra_spec h0 h1
  have hera : 0 ≤ (z + epochDay) / 146097 := Int.ediv_nonneg (by omega) (by decide)
  unfold ofDays
  dsimp only
  split <;> omega

example : ofDays 0 = ⟨1970, 1, 1⟩ ∧ ofDays 19782 = ⟨2024, 2, 29⟩ := by decide

end Date

end FlowAlarm
