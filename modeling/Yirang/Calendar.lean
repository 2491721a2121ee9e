/-
# `Yirang.Calendar` — seconds since 1970, as a calendar shows them

The Gregorian calendar repeats after 400 years, an era of 146097 days.  Here
an era begins with a first of March, so that the day that leap years add is
the last one of a year, and the months before it have the lengths they always
have.

    gmtime     the date and the time of day of a second, in UTC
    timegm     the second that a date and a time of day stand for
    padded     a number with zeros in front, as `%02d` writes it

`timegm_gmtime` says that no two seconds look alike, `gmtime_twoDigits` that
every field but the year has a fixed width.
-/
import Mathlib.Data.Int.Order.Basic
import Mathlib.Data.Nat.Find
import Mathlib.Data.List.Basic

namespace Yirang.Calendar

/-- A point in time as a calendar and a clock show it. -/
structure DateTime where
  year : Int
  month : Nat
  day : Nat
  hour : Nat
  minute : Nat
  second : Nat
deriving DecidableEq

/-! ## Years and months -/

/-- The days of an era before its year `y`. -/
def daysBeforeYear (y : Nat) : Nat := 365 * y + y / 4 - y / 100

/-- The days of a year before its month `m`; March is month 0. -/
def daysBeforeMonth (m : Nat) : Nat := (153 * m + 2) / 5

def yearAt (day : Nat) : Nat := Nat.findGreatest (fun y => daysBeforeYear y ≤ day) 399

def monthAt (day : Nat) : Nat := Nat.findGreatest (fun m => daysBeforeMonth m ≤ day) 11

theorem yearAt_spec (day : Nat) : daysBeforeYear (yearAt day) ≤ day := by
  exact Nat.findGreatest_spec (P := fun y => daysBeforeYear y ≤ day) (Nat.zero_le 399)
    (Nat.zero_le day)

theorem yearAt_lt (day : Nat) : yearAt day < 400 := Nat.lt_succ_of_le (Nat.findGreatest_le 399)

/-- No year is longer than 366 days. -/
theorem day_of_year_lt {day : Nat} (h : day < 146097) :
    day - daysBeforeYear (yearAt day) < 366 := by
  rcases Nat.lt_or_ge (yearAt day) 399 with hlt | hge
  · have hnext : ¬ daysBeforeYear (yearAt day + 1) ≤ day :=
      Nat.findGreatest_is_greatest (P := fun y => daysBeforeYear y ≤ day) (Nat.lt_succ_self _) hlt
    simp only [daysBeforeYear] at hnext ⊢
    omega
  · have heq : yearAt day = 399 := by
      have := yearAt_lt day
      omega
    rw [heq]
    simp only [daysBeforeYear]
    omega

theorem monthAt_spec (day : Nat) : daysBeforeMonth (monthAt day) ≤ day := by
  exact Nat.findGreatest_spec (P := fun m => daysBeforeMonth m ≤ day) (Nat.zero_le 11)
    (Nat.zero_le day)

theorem monthAt_lt (day : Nat) : monthAt day < 12 := Nat.lt_succ_of_le (Nat.findGreatest_le 11)

/-- No month is longer than 31 days. -/
theorem day_of_month_lt {day : Nat} (h : day < 366) :
    day - daysBeforeMonth (monthAt day) < 31 := by
  rcases Nat.lt_or_ge (monthAt day) 11 with hlt | hge
  · have hnext : ¬ daysBeforeMonth (monthAt day + 1) ≤ day :=
      Nat.findGreatest_is_greatest (P := fun m => daysBeforeMonth m ≤ day) (Nat.lt_succ_self _) hlt
    simp only [daysBeforeMonth] at hnext ⊢
    omega
  · have heq : monthAt day = 11 := by
      have := monthAt_lt day
      omega
    rw [heq]
    simp only [daysBeforeMonth]
    omega

/-! ## Dates -/

/-- `gmtime_r`, of seconds since the first of January 1970; that is day
719468 of the calendar.  The last two months of a year that begins with March
are in the next one that begins with January. -/
def gmtime (time : Int) : DateTime :=
  let days := time / 86400 + 719468
  let clock := (time % 86400).toNat
  let dayOfEra := (days % 146097).toNat
  let year := yearAt dayOfEra
  let dayOfYear := dayOfEra - daysBeforeYear year
  let month := monthAt dayOfYear
  { year := 400 * (days / 146097) + year + if month < 10 then 0 else 1
    month := if month < 10 then month + 3 else month - 9
    day := dayOfYear - daysBeforeMonth month + 1
    hour := clock / 3600
    minute := clock / 60 % 60
    second := clock % 60 }

def timegm (d : DateTime) : Int :=
  let year := if d.month < 3 then d.year - 1 else d.year
  let month := if d.month < 3 then d.month + 9 else d.month - 3
  let days := 146097 * (year / 400) + daysBeforeYear (year % 400).toNat +
    daysBeforeMonth month + d.day - 1
  86400 * (days - 719468) + 3600 * d.hour + 60 * d.minute + d.second

example : gmtime 1700000000 = ⟨2023, 11, 14, 22, 13, 20⟩ := by decide +kernel

/-- A second can be read off what the calendar shows of it. -/
theorem timegm_gmtime (time : Int) : timegm (gmtime time) = time := by
  have hera : (time / 86400 + 719468) % 146097 < 146097 := Int.emod_lt_of_pos _ (by decide)
  generalize hdays : time / 86400 + 719468 = days at hera
  generalize hday : (days % 146097).toNat = dayOfEra
  have hy := yearAt_spec dayOfEra
  have hy' := yearAt_lt dayOfEra
  generalize hyear : yearAt dayOfEra = year at hy hy'
  generalize hdoy : dayOfEra - daysBeforeYear year = dayOfYear
  have hm := monthAt_spec dayOfYear
  have hm' := monthAt_lt dayOfYear
  generalize hmonth : monthAt dayOfYear = month at hm hm'
  -- the year that begins with March, and its month, are found again
  have hfound : ∀ y : Int, y = 400 * (days / 146097) + year →
      y / 400 = days / 146097 ∧ (y % 400).toNat = year := by
    intro y e
    omega
  simp only [gmtime, timegm, hdays, hday, hyear, hdoy, hmonth]
  by_cases hlt : month < 10
  · obtain ⟨hdiv, hmod⟩ := hfound _ rfl
    simp only [hlt, if_true, Int.add_zero, show ¬ month + 3 < 3 by omega, if_false, hdiv, hmod,
      Nat.add_sub_cancel]
    omega
  · obtain ⟨hdiv, hmod⟩ := hfound _ rfl
    simp only [hlt, if_false, show month - 9 < 3 by omega, if_true, Int.add_sub_cancel, hdiv,
      hmod, show month - 9 + 9 = month by omega]
    omega

/-- Every field but the year has at most two digits. -/
structure DateTime.TwoDigits (d : DateTime) : Prop where
  month : d.month < 100
  day : d.day < 100
  hour : d.hour < 100
  minute : d.minute < 100
  second : d.second < 100

theorem gmtime_twoDigits (time : Int) : (gmtime time).TwoDigits := by
  have hera : ((time / 86400 + 719468) % 146097).toNat < 146097 := by omega
  have hday := day_of_month_lt (day_of_year_lt hera)
  have hmonth := monthAt_lt (((time / 86400 + 719468) % 146097).toNat -
    daysBeforeYear (yearAt ((time / 86400 + 719468) % 146097).toNat))
  refine ⟨?_, ?_, ?_, ?_, ?_⟩
  all_goals simp only [gmtime]
  · split <;> omega
  all_goals omega

/-! ## Numbers of a given width -/

/-- `%0wd` of a number that is not negative. -/
def padded (w n : Nat) : List Char := (Nat.toDigits 10 n).leftpad w '0'

theorem padded_injective {w : Nat} : Function.Injective (padded w) := by
  have hread : ∀ n, Nat.ofDigitChars 10 (padded w n) 0 = n := by
    intro n
    rw [padded, List.leftpad, Nat.ofDigitChars_append, Nat.ofDigitChars_replicate_zero,
      Nat.mul_zero, Nat.ofDigitChars_ten_toDigits]
  exact Function.LeftInverse.injective hread

/-- A number of at most two digits takes two. -/
theorem length_padded_two {n : Nat} (h : n < 100) : (padded 2 n).length = 2 := by
  have hle : (Nat.toDigits 10 n).length ≤ 2 := (Nat.length_toDigits_le_iff (by decide) (by decide)).mpr h
  rw [padded, List.length_leftpad]
  omega

theorem isDigit_of_mem_padded {w n : Nat} {c : Char} (h : c ∈ padded w n) : c.isDigit := by
  rw [padded, List.leftpad, List.mem_append] at h
  rcases h with h | h
  · rw [List.eq_of_mem_replicate h]
    decide
  · exact Nat.isDigit_of_mem_toDigits (by decide) (by decide) h

/-- `%0wd`: the sign counts. -/
def printed (w : Nat) : Int → List Char
  | .ofNat n => padded w n
  | .negSucc n => '-' :: padded (w - 1) (n + 1)

theorem printed_injective {w : Nat} : Function.Injective (printed w) := by
  intro a b h
  cases a with
  | ofNat a =>
      cases b with
      | ofNat b => exact congrArg Int.ofNat (padded_injective h)
      | negSucc b =>
          have hmem : '-' ∈ padded w a := by
            rw [show padded w a = _ from h]
            exact List.mem_cons_self
          exact absurd (isDigit_of_mem_padded hmem) (by decide)
  | negSucc a =>
      cases b with
      | ofNat b =>
          have hmem : '-' ∈ padded w b := by
            rw [← show _ = padded w b from h]
            exact List.mem_cons_self
          exact absurd (isDigit_of_mem_padded hmem) (by decide)
      | negSucc b =>
          have heq : a + 1 = b + 1 := padded_injective (List.cons.inj h).2
          exact congrArg Int.negSucc (Nat.succ.inj heq)

end Yirang.Calendar
