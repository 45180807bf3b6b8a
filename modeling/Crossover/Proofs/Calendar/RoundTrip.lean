/-
Crossover.Proofs.Calendar.RoundTrip — the text of an instant is read back as the instant that clocks show.

Reports show an instant as a date and a clock with a space between them, and bars are read in six layouts
of which none was made for that text alone. Of these the internet format does not accept it, for want of an
offset, and the next one gives the instant back if it is regular (`Instant.instant?_spaced`): the date is the
date of its day (`Civil.day?_ofDay`), the clock shows its second of the day, and second sixty stands for the leap
second. Any other instant has the text of a regular one, and is read as that (`Instant.read?_text`). Data files
have a letter in place of the space and a layout of their own (`Instant.readData?_isoText`).

  §1 Clocks — the numbers that a text shows stand for its instant.
  §2 Texts  — the layouts on the text of an instant.
-/
import Crossover.Proofs.Calendar.LeapSeconds

namespace Crossover

open Text Digits

/-! ## §1 Clocks -/

/-- A date of the calendar and a time of day stand for an instant, if the calendar goes that far. -/
theorem Reading.instant?_eq {r : Reading} {day : Int}
    (hday : Civil.day? ⟨r.year, r.month, r.day⟩ = some day)
    (hclock : r.hour < 24 ∧ r.minute < 60 ∧ r.second ≤ 60) :
    r.instant? =
      if r.second = 60 then
        Instant.of? (day * 86400 + r.hour * 3600 + r.minute * 60 - r.offset * 60 + 59)
          (Instant.billion + r.nano)
      else
        Instant.of? (day * 86400 + r.hour * 3600 + r.minute * 60 - r.offset * 60 + r.second) r.nano := by
  unfold instant?
  simp only [hday, if_pos hclock]

namespace Instant

/-- What a text of an instant says. -/
def reading (t : Instant) : Reading where
  year := t.civil.year
  month := t.civil.month
  day := t.civil.day
  hour := t.ofDaySecond / 3600
  minute := t.ofDaySecond / 60 % 60
  second := t.shownSecond
  nano := t.shownNano

/-- The second that clocks show that are some minutes ahead of universal time. -/
def localSecond (t : Instant) (ahead : Int) : Int :=
  t.second + ahead * 60

/-- What a text of an instant says by a clock that is some minutes ahead of universal time. -/
def readingAt (t : Instant) (ahead : Int) : Reading where
  year := (Civil.ofDay (t.localSecond ahead / 86400)).year
  month := (Civil.ofDay (t.localSecond ahead / 86400)).month
  day := (Civil.ofDay (t.localSecond ahead / 86400)).day
  hour := (t.localSecond ahead % 86400).toNat / 3600
  minute := (t.localSecond ahead % 86400).toNat / 60 % 60
  second := (t.localSecond ahead % 60).toNat + if t.nano < billion then 0 else 1
  nano := t.shownNano
  offset := ahead

theorem reading_eq (t : Instant) : t.reading = t.readingAt 0 := by
  have hlocal : t.localSecond 0 = t.second := by simp [localSecond]
  have hsecond : t.shownSecond = (t.second % 60).toNat + if t.nano < billion then 0 else 1 := by
    unfold shownSecond ofDaySecond
    split <;> omega
  simp only [reading, readingAt, hlocal, hsecond, civil, ofDaySecond]

/-- Months and days have at most two digits. -/
theorem readingAt_date_bounds (t : Instant) (ahead : Int) :
    (t.readingAt ahead).month < 100 ∧ (t.readingAt ahead).day < 100 := by
  have h := Civil.MarchDay.ofCount_spec (t.localSecond ahead / 86400 + Civil.epoch)
  simp only [readingAt, Civil.ofDay, Civil.MarchDay.civil, Civil.MarchDay.month, Civil.daysBefore]
  omega

theorem readingAt_clock_bounds (t : Instant) (ahead : Int) :
    (t.readingAt ahead).hour < 24 ∧ (t.readingAt ahead).minute < 60 ∧ (t.readingAt ahead).second ≤ 60 := by
  simp only [readingAt]
  split <;> omega

/-- Second sixty is shown in leap seconds at the end of a minute, by clocks that are ahead by whole minutes too. -/
theorem readingAt_second_eq_sixty {t : Instant} (h : t.Regular) (ahead : Int) :
    (t.readingAt ahead).second = 60 ↔ ¬ t.nano < billion := by
  unfold Regular at h
  simp only [readingAt, localSecond]
  split <;> omega

/-- What a text of a regular instant says stands for that instant, whatever the clock it was written by. -/
theorem instant?_readingAt {t : Instant} (h : t.Regular) (ahead : Int) :
    (t.readingAt ahead).instant? = some t := by
  have hday : Civil.day? ⟨(t.readingAt ahead).year, (t.readingAt ahead).month, (t.readingAt ahead).day⟩ =
      some (t.localSecond ahead / 86400) :=
    Civil.day?_ofDay _
  have hof := t.of?_self
  have hleap := t.inSecond
  have hsixty := readingAt_second_eq_sixty h ahead
  -- The minute that the clock shows, in seconds since 1970 by universal time.
  have hminute : t.localSecond ahead / 86400 * 86400 + ((t.readingAt ahead).hour : Int) * 3600
      + (t.readingAt ahead).minute * 60 - (t.readingAt ahead).offset * 60 = t.second - t.second % 60 := by
    simp only [readingAt, localSecond]
    omega
  rw [Reading.instant?_eq hday (t.readingAt_clock_bounds ahead), hminute]
  split
  · rename_i hsecond
    have hlate : ¬ t.nano < billion := hsixty.1 hsecond
    have hnano : billion + (t.readingAt ahead).nano = t.nano := by
      simp only [readingAt, shownNano]
      unfold billion at *
      omega
    have hlast : t.second - t.second % 60 + 59 = t.second := by
      have hminute := h.resolve_left hlate
      omega
    rw [hnano, hlast, hof]
  · rename_i hsecond
    have hearly : t.nano < billion := Decidable.not_not.1 (mt hsixty.2 hsecond)
    have hnano : (t.readingAt ahead).nano = t.nano := Nat.mod_eq_of_lt hearly
    have hshown : t.second - t.second % 60 + (t.readingAt ahead).second = t.second := by
      simp only [readingAt, if_pos hearly, localSecond]
      omega
    rw [hnano, hshown, hof]

theorem instant?_reading {t : Instant} (h : t.Regular) : t.reading.instant? = some t := by
  rw [reading_eq]
  exact instant?_readingAt h 0

/-- Months and days of the calendar have at most two digits. -/
theorem civil_bounds (t : Instant) : t.civil.month < 100 ∧ t.civil.day < 100 := by
  have h := t.readingAt_date_bounds 0
  rw [← reading_eq] at h
  exact h

theorem clock_bounds (t : Instant) :
    t.ofDaySecond / 3600 < 24 ∧ t.ofDaySecond / 60 % 60 < 60 ∧ t.shownSecond ≤ 60 := by
  have h := t.readingAt_clock_bounds 0
  rw [← reading_eq] at h
  exact h

theorem shownNano_lt (t : Instant) : t.shownNano < billion :=
  Nat.mod_lt _ (by decide)

/-! ## §2 Texts -/

theorem clockChars_eq_cons (t : Instant) : ∃ c rest, t.clockChars = c :: rest ∧ c.isDigit = true := by
  obtain ⟨c, rest, hchars, hdigit⟩ := padded_eq_cons 2 (t.ofDaySecond / 3600)
  exact ⟨c, _, by rw [clockChars, hchars]; rfl, hdigit⟩

theorem chars_eq_cons (separator : Char) (t : Instant) :
    ∃ c rest, t.chars separator = c :: rest ∧ isBlank c = false := by
  obtain ⟨c, rest, hchars, hblank⟩ := Layout.yearChars_eq_cons t.civil.year
  exact ⟨c, _, by rw [chars, dateChars, hchars]; rfl, hblank⟩

/-- A second ends in a digit, with a fraction or without. -/
theorem second_eq_concat (second nano : Nat) :
    ∃ front c, padded 2 second ++ fractionChars nano = front ++ [c] ∧ c.isDigit = true := by
  have hfraction : ∀ width n, ∃ front c,
      padded 2 second ++ '.' :: padded width n = front ++ [c] ∧ c.isDigit = true := by
    intro width n
    obtain ⟨front, c, hchars, hdigit⟩ := padded_eq_concat width n
    exact ⟨padded 2 second ++ '.' :: front, c, by rw [hchars]; simp, hdigit⟩
  unfold fractionChars
  split
  · rw [List.append_nil]
    exact padded_eq_concat 2 second
  · split
    · exact hfraction 3 _
    · split
      · exact hfraction 6 _
      · exact hfraction 9 _

/-- There is no white space around the text of an instant. -/
theorem trim_chars (separator : Char) (t : Instant) : trim (t.chars separator) = t.chars separator := by
  obtain ⟨first, back, hfront, hfirst⟩ := t.chars_eq_cons separator
  obtain ⟨front, last, hsecond, hlast⟩ := second_eq_concat t.shownSecond t.shownNano
  have hback : t.chars separator = dateChars t.civil ++ separator ::
      (padded 2 (t.ofDaySecond / 3600) ++ ':' :: (padded 2 (t.ofDaySecond / 60 % 60) ++ ':' :: front))
        ++ [last] := by
    simp only [chars, clockChars, List.append_assoc, List.cons_append, hsecond]
  exact trim_eq_self hfront hback hfirst (isBlank_of_isDigit hlast)

/-- A loose clock with a fraction takes the time of day off a text. -/
theorem run?_clock (r : Reading) (hzero : r.nano = 0) (t : Instant) :
    Layout.run? r t.clockChars (Layout.looseClock ++ [.fraction]) =
      some ({ r with hour := t.reading.hour, minute := t.reading.minute, second := t.reading.second,
                     nano := t.reading.nano }, []) := by
  have hbounds := t.clock_bounds
  have hfraction := Layout.run?_fraction
    { r with hour := t.reading.hour, minute := t.reading.minute, second := t.reading.second }
    hzero t.shownNano_lt stops_nil (by decide) []
  rw [List.append_nil] at hfraction
  rw [clockChars, Layout.run?_looseClock r (by omega) (by omega) (by omega)]
  exact hfraction

/-- A loose date and time with a fraction read the text of a regular instant as that instant. -/
theorem instant?_spaced {t : Instant} (h : t.Regular) :
    Layout.instant? (Layout.spaced ++ [.fraction]) (t.chars ' ') = some t := by
  have hdate := t.civil_bounds
  obtain ⟨c, rest, hclock, hdigit⟩ := t.clockChars_eq_cons
  have hrun : Layout.run? {} (t.chars ' ') (Layout.spaced ++ [.fraction]) = some (t.reading, []) := by
    rw [chars, Layout.spaced, List.append_assoc, List.cons_append,
      Layout.run?_looseDate _ hdate.1 hdate.2, hclock, Layout.run?_space _ (isBlank_of_isDigit hdigit),
      ← hclock, run?_clock _ rfl]
    rfl
  rw [Layout.instant?, hrun]
  exact instant?_reading h

/-- The internet format accepts no text of an instant: an offset is missing. -/
theorem instant?_internet (t : Instant) : Layout.instant? Layout.internet (t.chars ' ') = none := by
  have hdate := t.civil_bounds
  have hbounds := t.clock_bounds
  have hrun : Layout.run? {} (t.chars ' ') Layout.internet = none := by
    by_cases hnegative : t.civil.year < 0
    · simp only [chars, dateChars, yearChars, if_pos hnegative, List.cons_append]
      exact Layout.run?_internet_sign _ rfl _
    · by_cases hlong : 9999 < t.civil.year
      · simp only [chars, dateChars, yearChars, if_neg hnegative, if_pos hlong, List.cons_append]
        exact Layout.run?_internet_sign _ rfl _
      · have hyear : t.civil.year.natAbs < 10000 := by omega
        simp only [chars, dateChars, yearChars, clockChars, if_neg hnegative, if_neg hlong]
        rw [Layout.run?_internet _ hyear hdate.1 hdate.2 (by decide) (by omega) (by omega) (by omega)]
        -- What follows the second is the fraction, and nothing is left to be the offset.
        have hfraction := Layout.run?_fraction
          { year := t.civil.year.natAbs, month := t.civil.month, day := t.civil.day,
            hour := t.ofDaySecond / 3600, minute := t.ofDaySecond / 60 % 60, second := t.shownSecond }
          rfl t.shownNano_lt stops_nil (by decide) [.zone]
        rw [List.append_nil] at hfraction
        exact hfraction
  rw [Layout.instant?, hrun]

/-- The text of an instant is read back as the instant that clocks show. -/
theorem read?_text (t : Instant) : read? t.text = some t.asShown := by
  have hspaced := instant?_spaced t.regular_asShown
  rw [read?, text, String.toList_ofList, trim_chars, ← t.chars_asShown, Layout.bars]
  simp only [List.findSome?_cons, instant?_internet, hspaced]

/-- The text of an instant is read back as that instant exactly if it is regular. -/
theorem read?_text_eq_self_iff {t : Instant} : read? t.text = some t ↔ t.Regular := by
  rw [read?_text, Option.some.injEq, asShown_eq_self_iff]

/-- Two instants have the same text exactly if clocks show the same. -/
theorem text_eq_iff {s t : Instant} : s.text = t.text ↔ s.asShown = t.asShown := by
  constructor
  · intro h
    have hread : some s.asShown = some t.asShown := by rw [← s.read?_text, ← t.read?_text, h]
    exact Option.some.inj hread
  · intro h
    rw [text, text, ← s.chars_asShown, ← t.chars_asShown, h]

/-- Regular instants with the same text are the same. -/
theorem eq_of_text_eq {s t : Instant} (hs : s.Regular) (ht : t.Regular) (h : s.text = t.text) : s = t := by
  rw [text_eq_iff, asShown_of_regular hs, asShown_of_regular ht] at h
  exact h

/-- The layout of data files reads the text of a regular instant as that instant. -/
theorem instant?_data {t : Instant} (h : t.Regular) : Layout.instant? Layout.data (t.chars 'T') = some t := by
  have hdate := t.civil_bounds
  have hclock := t.clock_bounds
  have hfraction := Layout.run?_fraction { t.reading with nano := 0 } rfl t.shownNano_lt stops_nil
    (by decide) [.gap]
  rw [List.append_nil] at hfraction
  have hrun : Layout.run? {} (t.chars 'T') Layout.data = some (t.reading, []) := by
    simp only [chars, dateChars, clockChars, Layout.data, List.append_assoc, List.cons_append,
      List.nil_append]
    rw [Layout.run?_gap_year, Layout.run?_signedYear _ _ (stops_cons rfl _), Layout.run?_gap_mark _ rfl,
      Layout.run?_loose _ hdate.1, Layout.run?_gap_mark _ rfl, Layout.run?_loose _ hdate.2,
      Layout.run?_gap_mark _ rfl, Layout.run?_loose _ (by omega), Layout.run?_gap_mark _ rfl,
      Layout.run?_loose _ (by omega), Layout.run?_gap_mark _ rfl, Layout.run?_loose _ (by omega)]
    exact hfraction
  rw [Layout.instant?, hrun]
  exact instant?_reading h

/-- The text of an instant in data files is read back as the instant that clocks show. -/
theorem readData?_isoText (t : Instant) : readData? t.isoText = some t.asShown := by
  rw [readData?, isoText, String.toList_ofList, ← t.chars_asShown, instant?_data t.regular_asShown]

end Instant

end Crossover
