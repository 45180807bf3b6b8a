/-
Crossover.Proofs.Table.Times — a series whose labels were written into a table.

A report shows a bar by its label, and a table holds times as strings in the column `timestamp`. Each label is read
back as the time that clocks show (`Instant.read?_text`), and a series is made of these times exactly if they are in
order (`Table.series_eq_ok_iff_of_labelTexts`). If all times of a series are regular they are the times that clocks
show, and so it is for every series that was read from a table (`Series.regular_of_table`). Prices come from a column
of their own, and are only asked to be as many.

  §1 Columns    — labels and prices as columns.
  §2 Regular    — the times of a series that was read.
  §3 Round trip — labels as text and back.
-/
import Crossover.Proofs.Calendar.RoundTrip
import Crossover.Proofs.Table.Verdict

namespace Crossover

/-! ## §1 Columns -/

/-- Finite prices in a column of doubles are read as they are. -/
theorem Cells.closes_double {closes : List Float} (h : ∀ p ∈ closes, p.isFinite = true) :
    (Cells.double (closes.map some)).closes = .ok closes := by
  have hrow : ∀ row value price, closeOf row value = .ok price ↔ value = some price ∧ price.isFinite = true :=
    fun _ _ _ => closeOf_eq_ok_iff
  rw [closes_eq_ok_iff rfl, readRows_eq_ok_iff hrow, List.forall₂_map_left_iff, List.forall₂_same]
  exact fun p hp => ⟨rfl, h p hp⟩

/-- The texts of some times are read as the times that clocks show. -/
theorem Cells.times_string (times : List Instant) :
    (Cells.string (times.map fun t => some (Label.time t).text)).times = .ok (times.map Instant.asShown) := by
  rw [Cells.times, readRows_eq_ok_iff timeOfText_eq_ok_iff, List.forall₂_map_left_iff,
    List.forall₂_map_right_iff, List.forall₂_same]
  exact fun t _ => ⟨_, rfl, t.read?_text⟩

/-- The texts of the labels of a series, bar by bar. -/
def Series.labelTexts (s : Series) : List (Option String) :=
  (List.range s.size).map fun position => (s.label? position).map Label.text

theorem Series.labelTexts_eq {s : Series} {times : List Instant} (h : s.times = some times) :
    s.labelTexts = times.map fun t => some (Label.time t).text := by
  have hsize : times.length = s.size := s.times_length times h
  refine List.ext_getElem? fun i => ?_
  by_cases hi : i < times.length
  · have hrange : i < (List.range s.size).length := by
      rw [List.length_range]
      omega
    simp only [labelTexts, label?, h, List.getElem?_map, List.getElem?_eq_getElem hrange,
      List.getElem_range, List.getElem?_eq_getElem hi, Option.map_some]
  · have hrange : (List.range s.size).length ≤ i := by
      rw [List.length_range]
      omega
    simp only [labelTexts, List.getElem?_map, List.getElem?_eq_none hrange,
      List.getElem?_eq_none (Nat.not_lt.1 hi), Option.map_none]

/-- The prices of a series as doubles, and its labels as strings. -/
def Series.table (s : Series) : Table where
  columns := [⟨Table.closeName, .double (s.closes.map some)⟩, ⟨Table.timeName, .string s.labelTexts⟩]

/-! ## §2 Regular -/

/-- The time of a row is regular, whether it was read from a text or from a count. -/
theorem Cells.TimeAt.regular {c : Cells} {row : Nat} {t : Instant} (h : c.TimeAt row t) : t.Regular := by
  cases h with
  | text _ _ hread => exact Instant.regular_of_read? hread
  | count _ _ hkeeps => exact .inl hkeeps.1

/-- A series that was read from a table has regular times. -/
theorem Series.regular_of_table {table : Table} {s : Series} {times : List Instant} (h : table.series = .ok s)
    (htimes : s.times = some times) : ∀ t ∈ times, t.Regular := by
  intro t ht
  obtain ⟨row, hrow⟩ := List.mem_iff_getElem?.1 ht
  obtain ⟨c, -, -, huntimed, htimed⟩ := Table.exists_closes_of_series_eq h
  cases hd : table.column? Table.timeName with
  | none =>
    rw [huntimed hd] at htimes
    cases htimes
  | some d =>
    obtain ⟨found, hfound, hsome, -⟩ := htimed d hd
    rw [htimes] at hsome
    cases hsome
    exact (((Cells.getElem?_times hfound).2.2 row t).1 hrow).regular

/-! ## §3 Round trip -/

/-- A table with sound prices and with the labels of a series as its times is read as a series of these prices and
of the times that clocks show. -/
theorem Table.series_eq_ok_iff_of_labelTexts {s r : Series} {times : List Instant} {table : Table}
    {prices : Cells} {closes : List Float} (htimes : s.times = some times)
    (htexts : table.column? timeName = some (.string s.labelTexts))
    (hprices : table.column? closeName = some prices) (hcloses : prices.closes = .ok closes) :
    table.series = .ok r ↔ Series.ofTimed closes (times.map Instant.asShown) = .ok r := by
  have hinstants : (Cells.string s.labelTexts).times = .ok (times.map Instant.asShown) := by
    rw [Series.labelTexts_eq htimes]
    exact Cells.times_string times
  rw [← timedSeries_of_times hinstants, series_timed hprices hcloses htexts]
  cases timedSeries closes (.string s.labelTexts) <;> simp [Except.mapError]

/-- If the times of a series are regular, a table with its labels and with as many sound prices holds a series with
the same times. -/
theorem Table.exists_series_of_labelTexts {s : Series} {times : List Instant} {table : Table} {prices : Cells}
    {closes : List Float} (htimes : s.times = some times) (hregular : ∀ t ∈ times, t.Regular)
    (htexts : table.column? timeName = some (.string s.labelTexts))
    (hprices : table.column? closeName = some prices) (hcloses : prices.closes = .ok closes)
    (hsize : closes.length = s.size) :
    ∃ r : Series, table.series = .ok r ∧ r.closes = closes ∧ r.times = some times := by
  have hne : closes ≠ [] := by
    refine List.ne_nil_of_length_pos ?_
    rw [hsize]
    exact List.length_pos_iff.2 s.closes_ne_nil
  have hlength : times.length = closes.length := (s.times_length times htimes).trans hsize.symm
  obtain ⟨r, hr, hboth⟩ := Series.ofTimed_eq_ok hne hlength (s.times_pairwise times htimes)
  refine ⟨r, ?_, hboth⟩
  rw [series_eq_ok_iff_of_labelTexts htimes htexts hprices hcloses,
    map_eq_self fun t ht => Instant.asShown_of_regular (hregular t ht)]
  exact hr

/-- A series with regular times and finite prices is read back from its table. -/
theorem Series.series_table {s : Series} {times : List Instant} (htimes : s.times = some times)
    (hregular : ∀ t ∈ times, t.Regular) (hfinite : ∀ p ∈ s.closes, p.isFinite = true) :
    s.table.series = .ok s := by
  have htexts : s.table.column? Table.timeName = some (.string s.labelTexts) := rfl
  have hprices : s.table.column? Table.closeName = some (.double (s.closes.map some)) := rfl
  obtain ⟨r, hr, hrcloses, hrtimes⟩ := Table.exists_series_of_labelTexts htimes hregular htexts hprices
    (Cells.closes_double hfinite) rfl
  rw [hr, Series.eq_of hrcloses (hrtimes.trans htimes.symm)]

/-- **Labels with times survive being written and read.** The text of a label is read back as the time that clocks
show. That is the time of the label exactly if the time is regular, that is, does not lie in a leap second within a
minute. So different regular times have different texts. A table with the labels of a series of regular times as its
times and with as many sound prices holds a series with the same times and the same labels; with the prices of the
series beside them, it holds that series. And every series that was read from a table is a series of regular times. -/
theorem label_times_round_trip :
    (∀ t : Instant, Instant.read? (Label.time t).text = some t.asShown) ∧
    (∀ t : Instant, Instant.read? (Label.time t).text = some t ↔ t.Regular) ∧
    (∀ s t : Instant, s.Regular → t.Regular → (Label.time s).text = (Label.time t).text → s = t) ∧
    (∀ (s : Series) (times : List Instant) (table : Table) (prices : Cells) (closes : List Float),
      s.times = some times → (∀ t ∈ times, t.Regular) →
      table.column? Table.timeName = some (.string s.labelTexts) →
      table.column? Table.closeName = some prices →
      prices.closes = .ok closes →
      closes.length = s.size →
      ∃ r : Series, table.series = .ok r ∧ r.closes = closes ∧ r.times = some times ∧
        ∀ position, r.label? position = s.label? position) ∧
    (∀ (s : Series) (times : List Instant), s.times = some times → (∀ t ∈ times, t.Regular) →
      (∀ p ∈ s.closes, p.isFinite = true) → s.table.series = .ok s) ∧
    ∀ (table : Table) (s : Series) (times : List Instant), table.series = .ok s → s.times = some times →
      ∀ t ∈ times, t.Regular := by
  refine ⟨Instant.read?_text, fun t => Instant.read?_text_eq_self_iff, ?_, ?_, fun s times => Series.series_table,
    fun table s times => Series.regular_of_table⟩
  · intro s t hs ht htext
    exact Instant.eq_of_text_eq hs ht htext
  · intro s times table prices closes htimes hregular htexts hprices hcloses hsize
    obtain ⟨r, hr, hrcloses, hrtimes⟩ :=
      Table.exists_series_of_labelTexts htimes hregular htexts hprices hcloses hsize
    refine ⟨r, hr, hrcloses, hrtimes, fun position => ?_⟩
    rw [Series.label?, Series.label?, hrtimes, htimes]

/-- Two bars, half a second into the first second of the calendar and into the leap second of 2016. -/
def leapSeries : Series where
  closes := [1.0, 2.0]
  times := some [(Instant.of? (-8334601228800) 500000000).get rfl, (Instant.of? 1483228799 1500000000).get rfl]
  closes_ne_nil := nofun
  times_length := by simp
  times_pairwise := by
    intro times htimes
    cases htimes
    decide

/-- The texts of its labels have a signed year and second sixty, and are read back. -/
theorem label_times_round_trip_of_leap :
    leapSeries.labelTexts =
      [some "-262143-01-01 00:00:00.500", some "2016-12-31 23:59:60.500"] ∧
    leapSeries.table.series = .ok leapSeries := by
  refine ⟨by decide +kernel, ?_⟩
  refine label_times_round_trip.2.2.2.2.1 leapSeries _ rfl (by decide) ?_
  intro p hp
  simp only [leapSeries, List.mem_cons, List.not_mem_nil, or_false] at hp
  rcases hp with rfl | rfl
  · decide +kernel
  · decide +kernel

/-- Two bars, in a leap second that does not end a minute and at the start of the next second. -/
def straySeries : Series where
  closes := [1.0, 2.0]
  times := some [Instant.strayLeap, Instant.afterStrayLeap]
  closes_ne_nil := nofun
  times_length := by simp
  times_pairwise := by
    intro times htimes
    cases htimes
    decide

/-- The text of the first label is that of a time in the next second, and is read back as that. So the times that are
read are out of order, and there is no series in the table. -/
theorem label_times_lost_within_minute :
    Instant.read? (Label.time Instant.strayLeap).text = some Instant.strayLeap.asShown ∧
    Instant.strayLeap.asShown ≠ Instant.strayLeap ∧
    (Label.time Instant.strayLeap.asShown).text = (Label.time Instant.strayLeap).text ∧
    ∀ r, straySeries.table.series ≠ .ok r := by
  refine ⟨Instant.strayLeap.read?_text, by decide, by decide +kernel, fun r hr => ?_⟩
  have htexts : straySeries.table.column? Table.timeName = some (.string straySeries.labelTexts) := rfl
  have hprices : straySeries.table.column? Table.closeName = some (.double [some 1.0, some 2.0]) := rfl
  have hfinite : ∀ p ∈ straySeries.closes, p.isFinite = true := by
    intro p hp
    simp only [straySeries, List.mem_cons, List.not_mem_nil, or_false] at hp
    rcases hp with rfl | rfl
    · decide +kernel
    · decide +kernel
  have htimed := (Table.series_eq_ok_iff_of_labelTexts rfl htexts hprices (Cells.closes_double hfinite)).1 hr
  exact absurd (Series.ofTimed_eq_ok_iff.1 htimed).1.2.2 (by decide)

end Crossover
