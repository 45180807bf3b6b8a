/-
Crossover.Proofs.Calendar.Gregorian — the dates of days are those of the Gregorian calendar.

`Civil.ofDay` finds a date by the cycles of the calendar. Here the calendar is told by its rules instead:
which years have a leap day, how long a month is, and which date comes after a date (`Civil.next`). The
date of the next day is the next date (`Civil.ofDay_succ`), so that from one known day all others follow.

  §1 Rules   — leap years, months and the next date.
  §2 Years   — each count has one place in one March year.
  §3 Months  — the next place, within a month and at its end.
  §4 Days    — the next day.
-/
import Mathlib
import Crossover.Calendar.Civil

namespace Crossover

namespace Civil

/-! ## §1 Rules -/

/-- A year has a leap day if it is one in four, but of full centuries only one in four. -/
def IsLeap (year : Int) : Prop :=
  year % 4 = 0 ∧ (year % 100 = 0 → year % 400 = 0)

instance (year : Int) : Decidable (IsLeap year) :=
  inferInstanceAs (Decidable (_ ∧ _))

/-- The days of a month. -/
def monthLength (year : Int) (month : Nat) : Nat :=
  if month = 2 then if IsLeap year then 29 else 28
  else if month = 4 ∨ month = 6 ∨ month = 9 ∨ month = 11 then 30
  else 31

/-- The date after a date. -/
def next (c : Civil) : Civil :=
  if c.day < monthLength c.year c.month then { c with day := c.day + 1 }
  else if c.month < 12 then ⟨c.year, c.month + 1, 1⟩
  else ⟨c.year + 1, 1, 1⟩

/-! ## §2 Years -/

/-- The days of a March year. Its last month is the February of the next year. -/
def marchLength (year : Int) : Int :=
  if IsLeap (year + 1) then 366 else 365

theorem marchStart_succ (year : Int) : marchStart (year + 1) = marchStart year + marchLength year := by
  unfold marchStart marchLength
  by_cases hleap : IsLeap (year + 1)
  · rw [if_pos hleap]
    unfold IsLeap at hleap
    omega
  · rw [if_neg hleap]
    unfold IsLeap at hleap
    omega

theorem marchLength_bounds (year : Int) : 365 ≤ marchLength year ∧ marchLength year ≤ 366 := by
  unfold marchLength
  split <;> omega

theorem marchStart_mono {y z : Int} (h : y < z) : marchStart (y + 1) ≤ marchStart z := by
  unfold marchStart
  omega

namespace MarchDay

/-- A place lies within its year. -/
def Within (m : MarchDay) : Prop :=
  0 ≤ m.place ∧ m.place < marchLength m.year

/-- A count has one place in one year. -/
theorem eq_of_count {a b : MarchDay} (ha : a.Within) (hb : b.Within)
    (h : marchStart a.year + a.place = marchStart b.year + b.place) : a = b := by
  obtain ⟨y, p⟩ := a
  obtain ⟨z, q⟩ := b
  simp only [Within] at ha hb h
  have hy := marchStart_succ y
  have hz := marchStart_succ z
  rcases Int.lt_trichotomy y z with hlt | rfl | hgt
  · have := marchStart_mono hlt
    omega
  · have hsame : p = q := by omega
    rw [hsame]
  · have := marchStart_mono hgt
    omega

/-- Only leap years have a place for a 366th day. -/
theorem isLeap_of_last {n : Int} (h : (ofCount n).place = 365) : IsLeap ((ofCount n).year + 1) := by
  have hera : 0 ≤ n % 146097 ∧ n % 146097 < 146097 := by omega
  simp only [ofCount] at h ⊢
  generalize n % 146097 = ofEra at *
  have hcentury := quarter_century hera.1 hera.2
  generalize quarter ofEra 36524 = century at *
  have hcycle : 0 ≤ (ofEra - 36524 * century) % 1461 ∧ (ofEra - 36524 * century) % 1461 < 1461 := by
    omega
  have hyear := quarter_year hcycle.1 hcycle.2
  -- The last of four years goes up to the end of its cycle, which is the last of its century only where
  -- that is the last of its era.
  unfold IsLeap
  omega

theorem within_ofCount (n : Int) : (ofCount n).Within := by
  have hspec := ofCount_spec n
  have hlength := marchLength_bounds (ofCount n).year
  refine ⟨hspec.2.1, ?_⟩
  by_cases hlast : (ofCount n).place = 365
  · rw [marchLength, if_pos (isLeap_of_last hlast), hlast]
    decide
  · omega

/-- The next day is the next place, or the first place of the next year. -/
theorem ofCount_succ (n : Int) :
    ofCount (n + 1) =
      if (ofCount n).place + 1 < marchLength (ofCount n).year then
        { ofCount n with place := (ofCount n).place + 1 }
      else ⟨(ofCount n).year + 1, 0⟩ := by
  have hcount := (ofCount_spec n).1
  have hwithin := within_ofCount n
  have hnext := marchStart_succ (ofCount n).year
  have hlength := marchLength_bounds ((ofCount n).year + 1)
  refine eq_of_count (within_ofCount (n + 1)) ?_ ?_
  · split
    · exact ⟨by have := hwithin.1; simp only; omega, by simpa using ‹_›⟩
    · exact ⟨by simp, by simp only; omega⟩
  · rw [(ofCount_spec (n + 1)).1]
    unfold Within at hwithin
    split <;> simp only <;> omega

/-! ## §3 Months -/

/-- A month of a March year is the one whose days its place is among. -/
theorem month_eq_iff {m : MarchDay} {month : Int} :
    m.month = month ↔ daysBefore month ≤ m.place ∧ m.place < daysBefore (month + 1) := by
  unfold MarchDay.month daysBefore
  omega

theorem month_bounds {m : MarchDay} (h : m.Within) : 0 ≤ m.month ∧ m.month ≤ 11 := by
  have hlength := marchLength_bounds m.year
  unfold Within at h
  unfold MarchDay.month
  omega

/-- From March to December, the year is the one in which the March year begins. -/
theorem civil_of_early {m : MarchDay} (h : m.month < 10) :
    m.civil = ⟨m.year, (m.month + 3).toNat, (m.place - daysBefore m.month + 1).toNat⟩ := by
  simp [MarchDay.civil, h]

theorem civil_of_late {m : MarchDay} (h : ¬ m.month < 10) :
    m.civil = ⟨m.year + 1, (m.month - 9).toNat, (m.place - daysBefore m.month + 1).toNat⟩ := by
  simp [MarchDay.civil, h]

theorem day_civil (m : MarchDay) : (m.civil.day : Int) = m.place - daysBefore m.month + 1 := by
  have hdays := month_eq_iff.1 (rfl : m.month = m.month)
  simp only [MarchDay.civil]
  omega

/-- The months of a March year are as long as the calendar says. -/
theorem monthLength_civil {m : MarchDay} (h : m.Within) :
    (monthLength m.civil.year m.civil.month : Int) =
      if m.month < 11 then daysBefore (m.month + 1) - daysBefore m.month
      else marchLength m.year - daysBefore 11 := by
  have hmonth := month_bounds h
  simp only [MarchDay.civil]
  generalize m.month = month at *
  obtain ⟨h0, h11⟩ := hmonth
  unfold monthLength marchLength daysBefore
  interval_cases month <;> simp
  split <;> simp

/-- Within a month the next date has the next day. -/
theorem next_of_same_month {m : MarchDay} (h : m.Within) (hnext : m.place + 1 < marchLength m.year)
    (hsame : m.place + 1 < daysBefore (m.month + 1)) :
    MarchDay.civil { m with place := m.place + 1 } = m.civil.next := by
  have hdays := month_eq_iff.1 (rfl : m.month = m.month)
  have hmonth : MarchDay.month { m with place := m.place + 1 } = m.month :=
    month_eq_iff.2 ⟨by simp only; omega, hsame⟩
  have hroom : m.civil.day < monthLength m.civil.year m.civil.month := by
    have hlength := monthLength_civil h
    have hbounds := month_bounds h
    have hday := m.day_civil
    split at hlength
    · omega
    · have hlast : m.month = 11 := by omega
      rw [hlast] at hday
      omega
  rw [next, if_pos hroom]
  simp only [MarchDay.civil, hmonth, Civil.mk.injEq, true_and]
  omega

/-- After the last day of a month comes the first of the next, and after December, January. -/
theorem next_of_month_end {m : MarchDay} (h : m.Within) (hnext : m.place + 1 < marchLength m.year)
    (hend : m.place + 1 = daysBefore (m.month + 1)) :
    MarchDay.civil { m with place := m.place + 1 } = m.civil.next := by
  have hbounds := month_bounds h
  have hlength := marchLength_bounds m.year
  have hbefore : m.month < 11 := by
    by_contra hlast
    have heleven : m.month = 11 := by omega
    have htwelve : daysBefore (11 + 1) = 367 := rfl
    rw [heleven, htwelve] at hend
    omega
  have hmonth : MarchDay.month { m with place := m.place + 1 } = m.month + 1 := by
    refine month_eq_iff.2 ⟨by simp only; omega, ?_⟩
    simp only [hend]
    unfold daysBefore
    omega
  have hfull : ¬ m.civil.day < monthLength m.civil.year m.civil.month := by
    have hlength := monthLength_civil h
    have hday := m.day_civil
    rw [if_pos hbefore] at hlength
    omega
  rw [next, if_neg hfull]
  -- December is the tenth month of a March year.
  rcases Int.lt_trichotomy m.month 9 with hearly | hdecember | hlate
  · rw [civil_of_early (by omega), civil_of_early (by omega), hmonth, if_pos (by simp only; omega)]
    simp only [Civil.mk.injEq, true_and]
    omega
  · rw [civil_of_late (by omega), civil_of_early (by omega), hmonth, if_neg (by simp only; omega)]
    simp only [Civil.mk.injEq, true_and]
    omega
  · rw [civil_of_late (by omega), civil_of_late (by omega), hmonth, if_pos (by simp only; omega)]
    simp only [Civil.mk.injEq, true_and]
    omega

/-- After the last day of February comes the first of March. -/
theorem next_of_year_end {m : MarchDay} (h : m.Within) (hend : m.place + 1 = marchLength m.year) :
    MarchDay.civil ⟨m.year + 1, 0⟩ = m.civil.next := by
  have hlength := marchLength_bounds m.year
  have hmonth : m.month = 11 := by
    refine month_eq_iff.2 ?_
    unfold daysBefore
    omega
  have hfull : ¬ m.civil.day < monthLength m.civil.year m.civil.month := by
    have hdays := monthLength_civil h
    have hday := m.day_civil
    rw [if_neg (by omega)] at hdays
    rw [hmonth] at hday
    omega
  have hfebruary : m.civil = ⟨m.year + 1, (11 - 9 : Int).toNat, (m.place - daysBefore 11 + 1).toNat⟩ := by
    rw [civil_of_late (by omega), hmonth]
  rw [next, if_neg hfull, hfebruary]
  rfl

end MarchDay

/-! ## §4 Days -/

/-- **Days follow each other as the calendar says.** The date of the next day is the next date. -/
theorem ofDay_succ (d : Int) : ofDay (d + 1) = (ofDay d).next := by
  have hshift : d + 1 + epoch = d + epoch + 1 := by omega
  have hwithin := MarchDay.within_ofCount (d + epoch)
  rw [ofDay, ofDay, hshift, MarchDay.ofCount_succ]
  split
  · rename_i hnext
    have hdays := MarchDay.month_eq_iff.1 (rfl : (MarchDay.ofCount (d + epoch)).month = _)
    rcases Int.lt_or_eq_of_le (Int.add_one_le_of_lt hdays.2) with hsame | hend
    · exact MarchDay.next_of_same_month hwithin hnext hsame
    · exact MarchDay.next_of_month_end hwithin hnext hend
  · rename_i hlast
    have hend := hwithin.2
    exact MarchDay.next_of_year_end hwithin (by omega)

end Civil

end Crossover
