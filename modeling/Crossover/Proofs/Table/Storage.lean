/-
Crossover.Proofs.Table.Storage — times that a column keeps as counts.

Whole numbers count seconds, columns of times count milliseconds, microseconds or nanoseconds, and columns of
dates count days, all from 1970-01-01. What a count stands for is said once for all of them, by the nanoseconds
that it is worth (`Storage.Keeps`), and each conversion is that (`Storage.instant?_eq_some_iff`). Agreement and
order follow from it.

  §1 Instants — their distance from 1970-01-01.
  §2 Counts   — what a count stands for.
  §3 Columns  — the rows of a column of counts.
  §4 Order    — counts and times.
  §5 Range    — which counts stand for an instant, and what its text shows.
-/
import Crossover.Proofs.Calendar.Gregorian
import Crossover.Proofs.Calendar.LeapSeconds
import Crossover.Proofs.Lists.Alongside
import Crossover.Proofs.Table.Rows

namespace Crossover

/-! ## §1 Instants -/

namespace Instant

/-- The nanoseconds from 1970-01-01 to an instant that is not in a leap second. -/
def sinceEpoch (t : Instant) : Int :=
  t.second * billion + t.nano

/-- Outside leap seconds, instants are in the order of their nanoseconds. -/
theorem before_iff_sinceEpoch {s t : Instant} (hs : s.nano < billion) (ht : t.nano < billion) :
    s.Before t ↔ s.sinceEpoch < t.sinceEpoch := by
  unfold Before sinceEpoch billion at *
  omega

end Instant

/-! ## §2 Counts -/

/-- The ways in which a column keeps times as counts from 1970-01-01. -/
inductive Storage where
  | seconds (type : WholeType)
  | parts (unit : TimeUnit)
  | days
  deriving DecidableEq, Repr

namespace Storage

/-- The column of some counts, `none` where one is missing. -/
def cells : Storage → List (Option Int) → Cells
  | seconds type, values => .whole type values
  | parts unit, values => .time unit values
  | days, values => .date values

/-- How many nanoseconds one count is worth. -/
def worth : Storage → Int
  | seconds _ => 1000000000
  | parts .milli => 1000000
  | parts .micro => 1000
  | parts .nano => 1
  | days => 86400000000000

/-- The nanoseconds of a day. -/
def dayWorth : Int := 86400000000000

/-- A count stands for an instant: from 1970-01-01 to the instant, it counts the nanoseconds that it is
worth. No count stands for an instant in a leap second. -/
def Keeps (s : Storage) (count : Int) (t : Instant) : Prop :=
  t.nano < Instant.billion ∧ count * s.worth = t.sinceEpoch

/-- The instant of a count. -/
def instant? : Storage → Int → Option Instant
  | seconds _ => Instant.ofCount? 1
  | parts unit => Instant.ofCount? unit.perSecond
  | days => Instant.ofDay?

theorem instant?_eq_some_iff {s : Storage} {count : Int} {t : Instant} :
    s.instant? count = some t ↔ s.Keeps count t := by
  unfold Keeps Instant.sinceEpoch
  cases s with
  | seconds type =>
    simp only [instant?, Instant.ofCount?, Instant.of?_eq_some_iff, worth, Instant.billion]
    omega
  | parts unit =>
    cases unit <;>
      · simp only [instant?, Instant.ofCount?, Instant.of?_eq_some_iff, worth, Instant.billion,
          TimeUnit.perSecond]
        omega
  | days =>
    simp only [instant?, Instant.ofDay?, Instant.of?_eq_some_iff, worth, Instant.billion]
    omega

/-! ## §3 Columns -/

/-- A row holds a count that stands for an instant. -/
def Holds (s : Storage) (value : Option Int) (t : Instant) : Prop :=
  ∃ count, value = some count ∧ s.Keeps count t

/-- What a row of a column counts, `none` if its count is missing or a whole number beyond 64 bits. -/
def count? : Storage → Option Int → Option Int
  | seconds _, value => secondsOf value
  | parts _, value => value
  | days, value => value

/-- A count that stands for an instant fits 64 bits. -/
theorem holds_count?_iff {s : Storage} {value : Option Int} {t : Instant} :
    s.Holds (s.count? value) t ↔ s.Holds value t := by
  cases s with
  | parts unit => rfl
  | days => rfl
  | seconds type =>
    cases value with
    | none => rfl
    | some count =>
      simp only [Holds, count?, secondsOf, Option.bind_some, Option.some.injEq]
      constructor
      · rintro ⟨n, hn, hkeeps⟩
        split at hn
        · exact ⟨n, Option.some.inj hn, hkeeps⟩
        · cases hn
      · rintro ⟨n, rfl, hkeeps⟩
        have hlatest := t.inCalendar.2
        obtain ⟨hnano, hcount⟩ := hkeeps
        refine ⟨count, if_pos ?_, hnano, hcount⟩
        simp only [worth, Instant.sinceEpoch, Instant.billion, Instant.latest] at hnano hcount hlatest
        omega

theorem times_cells (s : Storage) (values : List (Option Int)) :
    (s.cells values).times = readRows (timeOfCount s.instant?) 0 (values.map s.count?) := by
  cases s with
  | seconds type => rfl
  | parts unit =>
    have hid : count? (parts unit) = id := rfl
    rw [hid, List.map_id]
    rfl
  | days =>
    have hid : count? days = id := rfl
    rw [hid, List.map_id]
    rfl

/-- A column of counts is read exactly if each row holds a count that stands for an instant. -/
theorem times_cells_eq_ok_iff (s : Storage) {values : List (Option Int)} {times : List Instant} :
    (s.cells values).times = .ok times ↔ List.Forall₂ s.Holds values times := by
  have hread : ∀ row value t, timeOfCount s.instant? row value = .ok t ↔ s.Holds value t := by
    intro row value t
    simp only [timeOfCount_eq_ok_iff, instant?_eq_some_iff, Holds]
  rw [times_cells, readRows_eq_ok_iff hread, List.forall₂_map_left_iff]
  simp only [holds_count?_iff]

theorem holds_some_iff {s : Storage} {count : Int} {t : Instant} :
    s.Holds (some count) t ↔ s.Keeps count t := by
  simp [Holds]

/-- Present counts are read exactly if each stands for an instant. -/
theorem times_counts_eq_ok_iff (s : Storage) {counts : List Int} {times : List Instant} :
    (s.cells (counts.map some)).times = .ok times ↔ List.Forall₂ s.Keeps counts times := by
  rw [times_cells_eq_ok_iff, List.forall₂_map_left_iff]
  simp only [holds_some_iff]

/-- Counts that are worth the same stand for the same instant. -/
theorem keeps_iff_of_worth {s r : Storage} {m n : Int} (h : m * s.worth = n * r.worth) (t : Instant) :
    s.Keeps m t ↔ r.Keeps n t := by
  rw [Keeps, Keeps, h]

/-- Columns of counts that are worth the same stand for the same instants. -/
theorem forall₂_keeps_iff {s r : Storage} {ms ns : List Int}
    (h : List.Forall₂ (fun m n => m * s.worth = n * r.worth) ms ns) {times : List Instant} :
    List.Forall₂ s.Keeps ms times ↔ List.Forall₂ r.Keeps ns times := by
  induction h generalizing times with
  | nil => simp
  | cons hworth _ ih =>
    rw [List.forall₂_cons_left_iff, List.forall₂_cons_left_iff]
    simp only [ih, keeps_iff_of_worth hworth]

/-! ## §4 Order -/

theorem worth_pos (s : Storage) : 0 < s.worth := by
  cases s with
  | seconds type => simp [worth]
  | parts unit => cases unit <;> simp [worth]
  | days => simp [worth]

/-- Counts are in the order of the instants that they stand for. -/
theorem Keeps.lt_iff {s : Storage} {m n : Int} {a b : Instant} (ha : s.Keeps m a) (hb : s.Keeps n b) :
    m < n ↔ a.Before b := by
  rw [Instant.before_iff_sinceEpoch ha.1 hb.1, ← ha.2, ← hb.2]
  exact (mul_lt_mul_iff_left₀ s.worth_pos).symm

/-- Instants are in order exactly if their counts are. -/
theorem pairwise_before_iff {s : Storage} {counts : List Int} {times : List Instant}
    (h : List.Forall₂ s.Keeps counts times) :
    times.Pairwise Instant.Before ↔ counts.Pairwise (· < ·) := by
  constructor
  · intro hbefore
    exact pairwise_of_forall₂ h.flip hbefore fun _ _ _ _ hm hn => (Keeps.lt_iff hm hn).2
  · intro hless
    exact pairwise_of_forall₂ h hless fun _ _ _ _ hm hn => (Keeps.lt_iff hm hn).1

/-! ## §5 Range -/

/-- A count stands for an instant exactly if it is worth a moment of the calendar. -/
theorem exists_keeps_iff (s : Storage) (count : Int) :
    (∃ t, s.Keeps count t) ↔
      Instant.earliest * Instant.billion ≤ count * s.worth ∧
        count * s.worth < (Instant.latest + 1) * Instant.billion := by
  constructor
  · rintro ⟨t, hnano, hcount⟩
    have hcalendar := t.inCalendar
    unfold Instant.sinceEpoch at hcount
    unfold Instant.billion at *
    omega
  · rintro ⟨hearliest, hlatest⟩
    refine ⟨⟨count * s.worth / Instant.billion, (count * s.worth % Instant.billion).toNat, ?_, ?_⟩, ?_, ?_⟩
    · unfold Instant.billion at *
      omega
    · unfold Instant.billion at *
      omega
    · unfold Instant.billion at *
      simp only
      omega
    · unfold Instant.sinceEpoch Instant.billion at *
      simp only
      omega

/-- The key of a count shows the date on which its nanoseconds lie, and the rest of them as its clock. -/
theorem Keeps.shown {s : Storage} {count : Int} {t : Instant} (h : s.Keeps count t) :
    t.civil = Civil.ofDay (count * s.worth / dayWorth) ∧
      (t.ofDaySecond : Int) * Instant.billion + t.nano = count * s.worth % dayWorth := by
  obtain ⟨hnano, hcount⟩ := h
  have hday : count * s.worth / dayWorth = t.second / 86400 := by
    rw [hcount]
    unfold Instant.sinceEpoch dayWorth Instant.billion at *
    omega
  refine ⟨by rw [Instant.civil, hday], ?_⟩
  rw [hcount]
  unfold Instant.ofDaySecond Instant.sinceEpoch dayWorth Instant.billion at *
  omega

end Storage

open Storage

/-- Prices and counts make a series exactly if there is a price, there is a count for each price, each count
stands for an instant, and the counts are in order. -/
theorem timedSeries_counts_iff (s : Storage) {closes : List Float} {counts : List Int} :
    (∃ series, Table.timedSeries closes (s.cells (counts.map some)) = .ok series) ↔
      closes ≠ [] ∧ counts.length = closes.length ∧ (∀ n ∈ counts, ∃ t, s.Keeps n t) ∧
        counts.Pairwise (· < ·) := by
  constructor
  · rintro ⟨series, hseries⟩
    obtain ⟨times, htimes, hseries⟩ := Table.timedSeries_eq_ok_iff.1 hseries
    have hkeeps := (times_counts_eq_ok_iff s).1 htimes
    obtain ⟨hne, hlength, hbefore⟩ := Series.exists_ofTimed_iff.1 ⟨series, hseries⟩
    exact ⟨hne, hkeeps.length_eq.trans hlength, exists_forall₂_iff.1 ⟨times, hkeeps⟩,
      (pairwise_before_iff hkeeps).1 hbefore⟩
  · rintro ⟨hne, hlength, hall, hless⟩
    obtain ⟨times, hkeeps⟩ := exists_forall₂_iff.2 hall
    have hbefore := (pairwise_before_iff hkeeps).2 hless
    obtain ⟨series, hseries⟩ :=
      Series.exists_ofTimed_iff.2 ⟨hne, hkeeps.length_eq.symm.trans hlength, hbefore⟩
    exact ⟨series, (Table.timedSeries_of_times ((times_counts_eq_ok_iff s).2 hkeeps)).2 hseries⟩

/-- **All ways to keep times agree, and keep their order.** A column of counts is read exactly if each row
holds a count that stands for an instant, which it does if the moment that it is worth lies within the
calendar, before 1970 as well as after. So counts that are worth the same are read as the same times,
whatever the two columns count in. The time shows the Gregorian date on which the moment lies, days being
numbered from 0001-01-01, which is day one; the rest is its clock. And counts are in the order of their times, so
that they make a series with as many prices exactly if they are strictly increasing. -/
theorem stored_times_agree :
    (∀ (s : Storage) (values : List (Option Int)) (times : List Instant),
      (s.cells values).times = .ok times ↔ List.Forall₂ s.Holds values times) ∧
    (∀ (s : Storage) (count : Int), (∃ t, s.Keeps count t) ↔
      Instant.earliest * Instant.billion ≤ count * s.worth ∧
        count * s.worth < (Instant.latest + 1) * Instant.billion) ∧
    (∀ (s r : Storage) (ms ns : List Int), List.Forall₂ (fun m n => m * s.worth = n * r.worth) ms ns →
      ∀ times, (s.cells (ms.map some)).times = .ok times ↔ (r.cells (ns.map some)).times = .ok times) ∧
    (∀ (s : Storage) (count : Int) (t : Instant), s.Keeps count t →
      t.civil = Civil.ofDay (count * s.worth / dayWorth) ∧
        (t.ofDaySecond : Int) * Instant.billion + t.nano = count * s.worth % dayWorth) ∧
    (Civil.ofDay (1 - 719163) = ⟨1, 1, 1⟩ ∧ Civil.ofDay (Instant.earliest / 86400) = ⟨-262143, 1, 1⟩ ∧
      Civil.ofDay (Instant.latest / 86400) = ⟨262142, 12, 31⟩ ∧
      ∀ day, Civil.ofDay (day + 1) = (Civil.ofDay day).next) ∧
    (∀ (s : Storage) (m n : Int) (a b : Instant), s.Keeps m a → s.Keeps n b → (m < n ↔ a.Before b)) ∧
    ∀ (s : Storage) (closes : List Float) (counts : List Int),
      (∃ series, Table.timedSeries closes (s.cells (counts.map some)) = .ok series) ↔
        closes ≠ [] ∧ counts.length = closes.length ∧ (∀ n ∈ counts, ∃ t, s.Keeps n t) ∧
          counts.Pairwise (· < ·) := by
  refine ⟨fun s _ _ => times_cells_eq_ok_iff s, exists_keeps_iff, ?_, fun _ _ _ => Keeps.shown, ?_,
    fun _ _ _ _ _ => Keeps.lt_iff, fun s _ _ => timedSeries_counts_iff s⟩
  · intro s r ms ns hworth times
    rw [times_counts_eq_ok_iff, times_counts_eq_ok_iff]
    exact forall₂_keeps_iff hworth
  · exact ⟨by decide, by decide, by decide, Civil.ofDay_succ⟩

/-- The start of the last day before 1970, and its last millisecond. -/
def lastOfSixties : List Instant :=
  [⟨-86400, 0, by decide, by decide⟩, ⟨-1, 999000000, by decide, by decide⟩]

/-- In milliseconds and in microseconds they are the same times, they are on the last day of 1969, and they
make a series. -/
theorem stored_times_agree_of_sixties :
    (Cells.time .milli [some (-86400000), some (-1)]).times = .ok lastOfSixties ∧
    (Cells.time .micro [some (-86400000000), some (-1000)]).times = .ok lastOfSixties ∧
    (∀ t ∈ lastOfSixties, t.civil = ⟨1969, 12, 31⟩) ∧
    lastOfSixties.Pairwise Instant.Before ∧
    ∃ series, Table.timedSeries [1.0, 2.0] (.time .milli [some (-86400000), some (-1)]) = .ok series := by
  obtain ⟨hread, hrange, hsame, hshown, -, horder, hseries⟩ := stored_times_agree
  have hfirst : Storage.Keeps (.parts .milli) (-86400000) ⟨-86400, 0, by decide, by decide⟩ :=
    ⟨by decide, by decide⟩
  have hlast : Storage.Keeps (.parts .milli) (-1) ⟨-1, 999000000, by decide, by decide⟩ :=
    ⟨by decide, by decide⟩
  have hmilli : (Storage.cells (.parts .milli) ([-86400000, -1].map some)).times = .ok lastOfSixties :=
    (hread _ _ _).2 (.cons ⟨_, rfl, hfirst⟩ (.cons ⟨_, rfl, hlast⟩ .nil))
  refine ⟨hmilli, ?_, ?_, ?_, ?_⟩
  · exact (hsame (.parts .milli) (.parts .micro) [-86400000, -1] [-86400000000, -1000]
      (.cons (by decide) (.cons (by decide) .nil)) lastOfSixties).1 hmilli
  · intro t ht
    simp only [lastOfSixties, List.mem_cons, List.not_mem_nil, or_false] at ht
    rcases ht with rfl | rfl
    · exact (hshown _ _ _ hfirst).1
    · exact (hshown _ _ _ hlast).1
  · have hless := (horder _ _ _ _ _ hfirst hlast).1 (by decide)
    simpa [lastOfSixties] using hless
  · refine (hseries (.parts .milli) [1.0, 2.0] [-86400000, -1]).2 ⟨by simp, rfl, ?_, by simp⟩
    intro n hn
    refine (hrange _ n).2 ?_
    simp only [List.mem_cons, List.not_mem_nil, or_false] at hn
    rcases hn with rfl | rfl
    · decide
    · decide

end Crossover
