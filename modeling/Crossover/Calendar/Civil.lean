/-
Crossover.Calendar.Civil — dates of the proleptic Gregorian calendar and the days they stand for.

Days are counted from 1970-01-01, in both directions. `Civil.ofDay` splits a count by the cycles of
400, 100, 4 and 1 years, each beginning on the first of March, so that the leap day is the last day
of its cycle. `Civil.toDay` counts back, and `Civil.toDay_ofDay` says that it does. `Civil.day?`
accepts a date exactly if it is the date of the day it counts to, so that the lengths of the months
are stated once.
-/
namespace Crossover

/-- A year, month and day, not necessarily of the calendar. -/
structure Civil where
  year : Int
  month : Nat
  day : Nat
  deriving Repr, DecidableEq

namespace Civil

/-! ## 1. Years that begin in March -/

/-- How many whole units a count holds, the last of four units taking what is left over. -/
def quarter (count unit : Int) : Int :=
  if count / unit < 3 then count / unit else 3

/-- A year beginning in March, and a day of it counted from zero. -/
structure MarchDay where
  year : Int
  place : Int

/-- The days before the first of March of a year, counted from 0000-03-01. -/
def marchStart (year : Int) : Int :=
  365 * year + year / 4 - year / 100 + year / 400

/-- The March year of the day `n` days after 0000-03-01. -/
def MarchDay.ofCount (n : Int) : MarchDay :=
  let ofEra := n % 146097
  let century := quarter ofEra 36524
  let ofCentury := ofEra - 36524 * century
  let ofCycle := ofCentury % 1461
  let rest := quarter ofCycle 365
  { year := 400 * (n / 146097) + 100 * century + 4 * (ofCentury / 1461) + rest
    place := ofCycle - 365 * rest }

theorem quarter_century {n : Int} (h0 : 0 ≤ n) (h1 : n < 146097) :
    0 ≤ quarter n 36524 ∧ quarter n 36524 ≤ 3 ∧ 0 ≤ n - 36524 * quarter n 36524 ∧
      n - 36524 * quarter n 36524 ≤ 36524 ∧
      (quarter n 36524 < 3 → n - 36524 * quarter n 36524 < 36524) := by
  unfold quarter
  split <;> omega

theorem quarter_year {n : Int} (h0 : 0 ≤ n) (h1 : n < 1461) :
    0 ≤ quarter n 365 ∧ quarter n 365 ≤ 3 ∧ 0 ≤ n - 365 * quarter n 365 ∧
      n - 365 * quarter n 365 ≤ 365 ∧ (quarter n 365 < 3 → n - 365 * quarter n 365 < 365) := by
  unfold quarter
  split <;> omega

/-- The parts of a count add up to it, and a place in a year is below 366. -/
theorem MarchDay.ofCount_spec (n : Int) :
    marchStart (ofCount n).year + (ofCount n).place = n ∧
      0 ≤ (ofCount n).place ∧ (ofCount n).place ≤ 365 := by
  simp only [ofCount, marchStart]
  have h0 : 0 ≤ n % 146097 ∧ n % 146097 < 146097 ∧ n = 146097 * (n / 146097) + n % 146097 := by
    omega
  revert h0
  generalize n / 146097 = era
  generalize n % 146097 = ofEra
  intro h0
  have h1 := quarter_century h0.1 h0.2.1
  revert h1
  generalize quarter ofEra 36524 = century
  intro h1
  have h2 : 0 ≤ (ofEra - 36524 * century) % 1461 ∧ (ofEra - 36524 * century) % 1461 < 1461 ∧
      ofEra - 36524 * century =
        1461 * ((ofEra - 36524 * century) / 1461) + (ofEra - 36524 * century) % 1461 := by
    omega
  revert h2
  generalize (ofEra - 36524 * century) / 1461 = cycle
  generalize (ofEra - 36524 * century) % 1461 = ofCycle
  intro h2
  have h3 := quarter_year h2.1 h2.2.1
  revert h3
  generalize quarter ofCycle 365 = rest
  intro h3
  have h4 : cycle ≤ 24 ∧ 0 ≤ cycle := by omega
  have h5 : 4 * cycle + rest < 100 := by omega
  have h6 : (400 * era + 100 * century + 4 * cycle + rest) / 4
      = 100 * era + 25 * century + cycle := by omega
  have h7 : (400 * era + 100 * century + 4 * cycle + rest) / 100 = 4 * era + century := by omega
  have h8 : (400 * era + 100 * century + 4 * cycle + rest) / 400 = era := by omega
  rw [h6, h7, h8]
  omega

/-! ## 2. Dates and days -/

/-- The days from 0000-03-01 to 1970-01-01. -/
def epoch : Int := 719468

/-- The days of a March year before a month, months numbered from zero. -/
def daysBefore (month : Int) : Int :=
  (153 * month + 2) / 5

/-- The month of the day at a place of a March year, months numbered from zero. -/
def MarchDay.month (m : MarchDay) : Int :=
  (5 * m.place + 2) / 153

def MarchDay.civil (m : MarchDay) : Civil where
  year := if m.month < 10 then m.year else m.year + 1
  month := (if m.month < 10 then m.month + 3 else m.month - 9).toNat
  day := (m.place - daysBefore m.month + 1).toNat

def ofDay (day : Int) : Civil :=
  (MarchDay.ofCount (day + epoch)).civil

/-- The March year in which a date lies. -/
def marchYear (c : Civil) : Int :=
  if c.month ≤ 2 then c.year - 1 else c.year

/-- The day that a date counts to. -/
def toDay (c : Civil) : Int :=
  marchStart c.marchYear + daysBefore (((c.month : Int) + 9) % 12) + c.day - 1 - epoch

/-- The day of a date, if the calendar has it. -/
def day? (c : Civil) : Option Int :=
  if ofDay c.toDay = c then some c.toDay else none

theorem MarchDay.toDay_civil (m : MarchDay) (h0 : 0 ≤ m.place) (h1 : m.place ≤ 365) :
    m.civil.toDay = marchStart m.year + m.place - epoch := by
  have hm : 0 ≤ m.month ∧ m.month ≤ 11 ∧ 0 ≤ m.place - daysBefore m.month := by
    unfold month daysBefore
    omega
  by_cases h : m.month < 10
  · have hmonth : m.civil.month = (m.month + 3).toNat := by simp [civil, h]
    have hyear : m.civil.marchYear = m.year := by
      have : ¬ m.civil.month ≤ 2 := by omega
      rw [marchYear, if_neg this]
      simp [civil, h]
    have hmod : ((m.civil.month : Int) + 9) % 12 = m.month := by omega
    have hday : (m.civil.day : Int) = m.place - daysBefore m.month + 1 := by
      simp only [civil]
      omega
    rw [toDay, hyear, hmod, hday]
    omega
  · have hmonth : m.civil.month = (m.month - 9).toNat := by simp [civil, h]
    have hyear : m.civil.marchYear = m.year := by
      have : m.civil.month ≤ 2 := by omega
      rw [marchYear, if_pos this]
      simp [civil, h]
    have hmod : ((m.civil.month : Int) + 9) % 12 = m.month := by omega
    have hday : (m.civil.day : Int) = m.place - daysBefore m.month + 1 := by
      simp only [civil]
      omega
    rw [toDay, hyear, hmod, hday]
    omega

/-- Counting back from a day's date gives the day. -/
theorem toDay_ofDay (d : Int) : (ofDay d).toDay = d := by
  have h := MarchDay.ofCount_spec (d + epoch)
  rw [ofDay, MarchDay.toDay_civil _ h.2.1 h.2.2]
  omega

/-- Every day is found by its date. -/
theorem day?_ofDay (d : Int) : (ofDay d).day? = some d := by
  simp [day?, toDay_ofDay]

end Civil

end Crossover
