/-
Crossover.Proofs.Calendar.Offsets — texts of one instant by different clocks.

A text in the internet format shows an instant by a clock that is some minutes ahead of universal time, and says
by how many. `Instant.ZonedText` is the grammar of these texts: any separator, any fraction that is exact to the
nanosecond or has more digits, any way to write the offset. The internet format takes such a text apart again
(`Instant.ZonedText.run?_internet`), and what the clock shows stands for the instant (`Instant.instant?_readingAt`).

  §1 Offsets — how they are written and read.
  §2 Texts   — the text of an instant with an offset.
  §3 Columns — texts with different offsets, row by row.
-/
import Crossover.Proofs.Calendar.RoundTrip
import Crossover.Proofs.Table.Rows

namespace Crossover

open Text Digits

/-! ## §1 Offsets -/

/-- By how many minutes a clock is ahead of universal time: less than a day, in either direction. -/
structure Offset where
  minutes : Int
  bounded : minutes.natAbs < 1440

namespace Offset

/-- Hours and minutes of an offset, a colon between them. -/
def digits (o : Offset) : List Char :=
  padded 2 (o.minutes.natAbs / 60) ++ ':' :: padded 2 (o.minutes.natAbs % 60)

/-- How an offset may be written: a letter if there is none, or a sign with hours and minutes. -/
inductive ZoneText (o : Offset) : List Char → Prop
  | letter {c : Char} (hc : c = 'Z' ∨ c = 'z') (h : o.minutes = 0) : ZoneText o [c]
  | ahead (h : 0 ≤ o.minutes) : ZoneText o ('+' :: o.digits)
  | behind {c : Char} (hc : c = '-' ∨ c = '\u2212') (h : o.minutes ≤ 0) : ZoneText o (c :: o.digits)

theorem offset?_digits (o : Offset) : Item.offset? o.digits = some ((o.minutes.natAbs : Int), []) := by
  have hbounded := o.bounded
  have hhours : ∀ rest, Item.number? 2 2 (padded 2 (o.minutes.natAbs / 60) ++ rest) =
      some (o.minutes.natAbs / 60, rest) :=
    Item.number?_padded (by decide) (by decide) (by omega)
  have hminutes : Item.number? 2 2 (padded 2 (o.minutes.natAbs % 60) ++ []) = some (o.minutes.natAbs % 60, []) :=
    Item.number?_padded (by decide) (by decide) (by omega) []
  rw [List.append_nil] at hminutes
  have hclock : o.minutes.natAbs / 60 < 24 ∧ o.minutes.natAbs % 60 < 60 := by omega
  have htotal : o.minutes.natAbs / 60 * 60 + o.minutes.natAbs % 60 = o.minutes.natAbs := by omega
  simp only [Item.offset?, digits, hhours, hminutes, if_pos hclock, htotal]

variable {o : Offset} {zone : List Char}

/-- An offset is read as what it is, whichever way it is written. -/
theorem ZoneText.run? (h : o.ZoneText zone) (r : Reading) :
    Layout.run? r zone [.zone] = some ({ r with offset := o.minutes }, []) := by
  have hread : Item.read? r zone .zone = some ({ r with offset := o.minutes }, []) := by
    cases h with
    | letter hc h =>
      rcases hc with rfl | rfl
      · simp [Item.read?, h]
      · simp [Item.read?, h]
    | ahead h =>
      have habs : (o.minutes.natAbs : Int) = o.minutes := by omega
      simp only [Item.read?, o.offset?_digits, Option.map_some, habs]
    | behind hc h =>
      have habs : -(o.minutes.natAbs : Int) = o.minutes := by omega
      rcases hc with rfl | rfl
      · simp only [Item.read?, o.offset?_digits, Option.map_some, habs]
      · simp only [Item.read?, o.offset?_digits, Option.map_some, habs]
  rw [Layout.run?_cons r hread]
  rfl

/-- An offset goes on neither with a number before it nor with a fraction. -/
theorem ZoneText.stops (h : o.ZoneText zone) : Stops zone ∧ zone.head? ≠ some '.' := by
  cases h with
  | letter hc =>
    rcases hc with rfl | rfl
    · exact ⟨stops_cons rfl _, by simp⟩
    · exact ⟨stops_cons rfl _, by simp⟩
  | ahead => exact ⟨stops_cons rfl _, by simp⟩
  | behind hc =>
    rcases hc with rfl | rfl
    · exact ⟨stops_cons rfl _, by simp⟩
    · exact ⟨stops_cons rfl _, by simp⟩

/-- No white space is at the end of an offset. -/
theorem ZoneText.eq_concat (h : o.ZoneText zone) : ∃ front c, zone = front ++ [c] ∧ isBlank c = false := by
  obtain ⟨front, c, hminutes, hdigit⟩ := padded_eq_concat 2 (o.minutes.natAbs % 60)
  have hdigits : o.digits = padded 2 (o.minutes.natAbs / 60) ++ ':' :: front ++ [c] := by
    rw [digits, hminutes, List.append_assoc, List.cons_append]
  cases h with
  | letter hc =>
    rcases hc with rfl | rfl
    · exact ⟨[], _, rfl, rfl⟩
    · exact ⟨[], _, rfl, rfl⟩
  | ahead => exact ⟨_, c, by rw [hdigits, ← List.cons_append], isBlank_of_isDigit hdigit⟩
  | behind => exact ⟨_, c, by rw [hdigits, ← List.cons_append], isBlank_of_isDigit hdigit⟩

end Offset

/-! ## §2 Texts -/

/-- The date and the clock of a reading in the internet format, without a fraction. -/
def Reading.internetChars (r : Reading) (separator : Char) : List Char :=
  padded 4 r.year.natAbs ++ '-' :: padded 2 r.month ++ '-' :: padded 2 r.day ++ separator ::
    (padded 2 r.hour ++ ':' :: padded 2 r.minute ++ ':' :: padded 2 r.second)

namespace Instant

/-- A text of an instant in the internet format, by a clock that is ahead by an offset. The year that the
clock shows has four digits, and of leap seconds it shows those that end a minute. -/
inductive ZonedText (t : Instant) (o : Offset) : List Char → Prop
  | intro {separator : Char} {fraction zone : List Char} (hregular : t.Regular)
      (hyear : 0 ≤ (t.readingAt o.minutes).year ∧ (t.readingAt o.minutes).year ≤ 9999)
      (hseparator : separator ∈ ['T', 't', ' ']) (hfraction : Layout.FractionText t.shownNano fraction)
      (hzone : o.ZoneText zone) :
      ZonedText t o ((t.readingAt o.minutes).internetChars separator ++ (fraction ++ zone))

variable {t : Instant} {o : Offset} {cs : List Char}

theorem ZonedText.regular (h : t.ZonedText o cs) : t.Regular := by
  cases h with
  | intro hregular => exact hregular

/-- There is no white space around the text of an instant. -/
theorem ZonedText.trim_eq (h : t.ZonedText o cs) : trim cs = cs := by
  cases h with
  | @intro separator fraction zone hregular hyear hseparator hfraction hzone =>
    obtain ⟨first, more, hchars, hfirst⟩ := padded_eq_cons 4 (t.readingAt o.minutes).year.natAbs
    obtain ⟨front, last, hlast, hblank⟩ := hzone.eq_concat
    obtain ⟨back, hfront⟩ : ∃ back,
        (t.readingAt o.minutes).internetChars separator ++ (fraction ++ zone) = first :: back := by
      rw [Reading.internetChars, hchars]
      exact ⟨_, rfl⟩
    have hback : (t.readingAt o.minutes).internetChars separator ++ (fraction ++ zone) =
        ((t.readingAt o.minutes).internetChars separator ++ (fraction ++ front)) ++ [last] := by
      rw [hlast, List.append_assoc, List.append_assoc]
    exact trim_eq_self hfront hback (isBlank_of_isDigit hfirst) hblank

/-- The internet format covers the text of an instant, and reads what its clock shows. -/
theorem ZonedText.run?_internet (h : t.ZonedText o cs) :
    Layout.run? {} cs Layout.internet = some (t.readingAt o.minutes, []) := by
  cases h with
  | @intro separator fraction zone hregular hyear hseparator hfraction hzone =>
    have hdate := t.readingAt_date_bounds o.minutes
    have hclock := t.readingAt_clock_bounds o.minutes
    have hshort : (t.readingAt o.minutes).year.natAbs < 10000 := by omega
    have hsign : ((t.readingAt o.minutes).year.natAbs : Int) = (t.readingAt o.minutes).year := by omega
    obtain ⟨hstops, hpoint⟩ := hzone.stops
    have hhour : (t.readingAt o.minutes).hour < 100 := by omega
    have hminute : (t.readingAt o.minutes).minute < 100 := by omega
    have hsecond : (t.readingAt o.minutes).second < 100 := by omega
    have hrun := Layout.run?_internet {} hshort hdate.1 hdate.2 hseparator hhour hminute hsecond
      (fraction ++ zone)
    rw [Layout.run?_fractionText _ hfraction rfl hstops hpoint, hzone.run?] at hrun
    simp only [Reading.internetChars, List.append_assoc, List.cons_append] at hrun ⊢
    rw [hrun]
    simp only [hsign]
    rfl

/-- The text of an instant in the internet format is read as that instant, whatever its offset. -/
theorem ZonedText.read? {text : String} (h : t.ZonedText o text.toList) : Instant.read? text = some t := by
  have hinternet : Layout.internet.instant? text.toList = some t := by
    rw [Layout.instant?, h.run?_internet]
    exact instant?_readingAt h.regular o.minutes
  rw [Instant.read?, h.trim_eq, Layout.bars, List.findSome?_cons, hinternet]

end Instant

/-! ## §3 Columns -/

/-- A column of texts of instants, each with an offset of its own, is read as these instants. -/
theorem Cells.times_zonedTexts {texts : List String} {instants : List Instant}
    (h : List.Forall₂ (fun text t => ∃ o, t.ZonedText o text.toList) texts instants) :
    (Cells.string (texts.map some)).times = .ok instants := by
  rw [Cells.times, readRows_eq_ok_iff timeOfText_eq_ok_iff, List.forall₂_map_left_iff]
  exact h.imp fun text t ⟨o, htext⟩ => ⟨text, rfl, htext.read?⟩

/-- Prices and texts of instants make a series exactly if the instants are in order, and these are its times. -/
theorem Table.timedSeries_zonedTexts {closes : List Float} {texts : List String} {instants : List Instant}
    (hne : closes ≠ []) (hlength : texts.length = closes.length)
    (h : List.Forall₂ (fun text t => ∃ o, t.ZonedText o text.toList) texts instants) :
    ((∃ s, timedSeries closes (.string (texts.map some)) = .ok s) ↔ instants.Pairwise Instant.Before) ∧
      ∀ s, timedSeries closes (.string (texts.map some)) = .ok s → s.times = some instants := by
  have htimes := Cells.times_zonedTexts h
  have hinstants : instants.length = closes.length := h.length_eq.symm.trans hlength
  constructor
  · simp only [timedSeries_of_times htimes, Series.exists_ofTimed_iff]
    exact ⟨fun hall => hall.2.2, fun hpairwise => ⟨hne, hinstants, hpairwise⟩⟩
  · intro s hs
    exact (Series.ofTimed_eq_ok_iff.1 ((timedSeries_of_times htimes).1 hs)).2.2

/-- **Times with an offset count by the instant that they stand for.** A text in the internet format is read as
its instant, by whichever clock it was written, leap seconds and fractions included. So the texts of an instant
with different offsets are read as the same time, and a column of such texts makes a series with as many prices
exactly if the instants are in order, whatever their local dates and clocks are. -/
theorem offsets_normalised :
    (∀ (t : Instant) (o : Offset) (text : String), t.ZonedText o text.toList →
      Instant.read? text = some t) ∧
    (∀ (t : Instant) (o p : Offset) (a b : String), t.ZonedText o a.toList → t.ZonedText p b.toList →
      Instant.read? a = Instant.read? b) ∧
    ∀ (closes : List Float) (texts : List String) (instants : List Instant),
      closes ≠ [] → texts.length = closes.length →
      List.Forall₂ (fun text t => ∃ o, t.ZonedText o text.toList) texts instants →
      ((∃ s, Table.timedSeries closes (.string (texts.map some)) = .ok s) ↔
          instants.Pairwise Instant.Before) ∧
        ∀ s, Table.timedSeries closes (.string (texts.map some)) = .ok s → s.times = some instants := by
  refine ⟨fun t o text h => h.read?, ?_, fun _ _ _ => Table.timedSeries_zonedTexts⟩
  intro t o p a b ha hb
  rw [ha.read?, hb.read?]

/-- The middle of the leap second at the end of 2008. -/
def leapSecond : Instant :=
  (Instant.of? 1230767999 1500000000).get rfl

/-- The start of 2009. -/
def newYear : Instant :=
  (Instant.of? 1230768000 0).get rfl

/-- Five hours and a half ahead of universal time. -/
def halfPastFive : Offset :=
  ⟨330, by decide⟩

/-- Eleven hours behind universal time. -/
def elevenBehind : Offset :=
  ⟨-660, by decide⟩

/-- A leap second is read from the new year of one clock and from the old year of another one, and comes before
an instant whose local date is earlier. -/
theorem offsets_normalised_of_leapSecond :
    Instant.read? "2009-01-01T05:29:60.5000000009+05:30" = some leapSecond ∧
    Instant.read? "2008-12-31t12:59:60.50-11:00" = some leapSecond ∧
    ∃ s, Table.timedSeries [1.0, 2.0]
      (.string [some "2009-01-01T05:29:60.5000000009+05:30", some "2008-12-31 13:00:00-11:00"]) = .ok s := by
  have hahead : leapSecond.ZonedText halfPastFive "2009-01-01T05:29:60.5000000009+05:30".toList := by
    have hchars : "2009-01-01T05:29:60.5000000009+05:30".toList =
        (leapSecond.readingAt halfPastFive.minutes).internetChars 'T' ++
          (".5000000009".toList ++ '+' :: halfPastFive.digits) := by decide +kernel
    rw [hchars]
    exact .intro (by decide) (by decide +kernel) (by decide)
      (.point (by decide) (List.all_eq_true.1 rfl) (by decide +kernel)) (.ahead (by decide))
  have hbehind : leapSecond.ZonedText elevenBehind "2008-12-31t12:59:60.50-11:00".toList := by
    have hchars : "2008-12-31t12:59:60.50-11:00".toList =
        (leapSecond.readingAt elevenBehind.minutes).internetChars 't' ++
          (".50".toList ++ '-' :: elevenBehind.digits) := by decide +kernel
    rw [hchars]
    exact .intro (by decide) (by decide +kernel) (by decide)
      (.point (by decide) (List.all_eq_true.1 rfl) (by decide +kernel)) (.behind (.inl rfl) (by decide))
  have hlater : newYear.ZonedText elevenBehind "2008-12-31 13:00:00-11:00".toList := by
    have hchars : "2008-12-31 13:00:00-11:00".toList =
        (newYear.readingAt elevenBehind.minutes).internetChars ' ' ++ ([] ++ '-' :: elevenBehind.digits) := by
      decide +kernel
    rw [hchars]
    exact .intro (by decide) (by decide +kernel) (by decide) (.missing rfl) (.behind (.inl rfl) (by decide))
  obtain ⟨hread, hsame, hcolumn⟩ := offsets_normalised
  have hfirst := hread _ _ _ hahead
  refine ⟨hfirst, (hsame _ _ _ _ _ hbehind hahead).trans hfirst, ?_⟩
  have hboth := hcolumn [1.0, 2.0] ["2009-01-01T05:29:60.5000000009+05:30", "2008-12-31 13:00:00-11:00"]
    [leapSecond, newYear] (by simp) rfl (.cons ⟨_, hahead⟩ (.cons ⟨_, hlater⟩ .nil))
  exact hboth.1.2 (by decide)

end Crossover
