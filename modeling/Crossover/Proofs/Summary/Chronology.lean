/-
Crossover.Proofs.Summary.Chronology — the rows of the table are in the order of time.

A row names the first and the last bar of a training stretch and of the test stretch behind it. All that is
said about the order of its labels comes from the positions of these bars (`SummaryRow.Names`): labels are
ordered as bars are (`Series.before_iff_lt`), and windows lie one test stretch apart, however many of them
were skipped in between. As labels are in order, the bars from the first label to the last are those of the
stretch and no others (`Series.spans_of_labels`).

  §1 Stretches — bars with their labels, by position and by label.
  §2 Rows      — the bars that a row names.
  §3 Windows   — the windows that choices are about.
  §4 Tables    — all rows of a run.
-/
import Crossover.Proofs.Guarded.Outcome
import Crossover.Proofs.Label.Order
import Crossover.Proofs.Lists.Alongside

namespace Crossover

/-! ## §1 Stretches -/

/-- A label lies in the range from one label to another, both included. -/
def Label.Between (first last label : Label) : Prop :=
  ¬ label.Before first ∧ ¬ last.Before label

instance (first last label : Label) : Decidable (Label.Between first last label) :=
  inferInstanceAs (Decidable (_ ∧ _))

namespace Series

/-- The bars of a series: the label and the price of each. -/
def bars (s : Series) : List (Label × Float) :=
  s.labels.zip s.closes

/-- The bars from position `start` up to and without `stop`. -/
def stretch (s : Series) (start stop : Nat) : List (Label × Float) :=
  (s.bars.drop start).take (stop - start)

/-- The bars whose labels lie in a range. -/
def between (s : Series) (first last : Label) : List (Label × Float) :=
  s.bars.filter fun b => decide (Label.Between first last b.1)

/-- The bars of a stretch are just those from one label to another, which name its first and its last
bar. -/
structure Spans (s : Series) (start stop : Nat) (first last : Label) : Prop where
  starts : (s.stretch start stop).head?.map Prod.fst = some first
  ends : (s.stretch start stop).getLast?.map Prod.fst = some last
  covers : s.between first last = s.stretch start stop

variable (s : Series)

theorem map_fst_bars : s.bars.map Prod.fst = s.labels :=
  List.map_fst_zip (Nat.le_of_eq s.length_labels)

theorem map_snd_bars : s.bars.map Prod.snd = s.closes :=
  List.map_snd_zip (Nat.le_of_eq s.length_labels.symm)

theorem length_bars : s.bars.length = s.size := by
  rw [← s.length_labels, ← s.map_fst_bars, List.length_map]

theorem bars_pairwise : s.bars.Pairwise fun a b => a.1.Before b.1 := by
  rw [← List.pairwise_map, s.map_fst_bars]
  exact s.labels_pairwise

/-- The prices of a stretch of bars are the slice at its place. -/
theorem map_snd_stretch (start stop : Nat) : (s.stretch start stop).map Prod.snd = s.slice start stop := by
  rw [stretch, slice, List.map_take, List.map_drop, s.map_snd_bars]

theorem length_stretch (start : Nat) {stop : Nat} (h : stop ≤ s.size) :
    (s.stretch start stop).length = stop - start := by
  rw [stretch, List.length_take, List.length_drop, s.length_bars]
  omega

theorem getElem?_stretch {start stop i : Nat} (hi : start + i < stop) (h : stop ≤ s.size) :
    (s.stretch start stop)[i]?.map Prod.fst = s.label? (start + i) := by
  rw [stretch, List.getElem?_take_of_lt (by omega), List.getElem?_drop, ← List.getElem?_map,
    s.map_fst_bars, s.getElem?_labels (by omega)]

end Series

/-- In a stretch of bars that are in order, no label is before the first or after the last one. -/
theorem between_of_mem {stretch : List (Label × Float)} {a z b : Label × Float}
    (h : stretch.Pairwise fun a b => a.1.Before b.1) (ha : stretch.head? = some a)
    (hz : stretch.getLast? = some z) (hb : b ∈ stretch) : Label.Between a.1 z.1 b.1 := by
  obtain ⟨rest, rfl⟩ := List.head?_eq_some_iff.1 ha
  obtain ⟨init, hinit⟩ := List.getLast?_eq_some_iff.1 hz
  constructor
  · intro hbefore
    rcases List.mem_cons.1 hb with rfl | hrest
    · exact Label.Before.irrefl _ hbefore
    · exact hbefore.asymm (List.rel_of_pairwise_cons h hrest)
  · intro hbefore
    rw [hinit] at hb h
    rcases List.mem_append.1 hb with hinit | hlast
    · exact hbefore.asymm ((List.pairwise_append.1 h).2.2 b hinit z (List.mem_singleton_self z))
    · rw [List.mem_singleton.1 hlast] at hbefore
      exact Label.Before.irrefl _ hbefore

/-- In bars that are in order, those from the first to the last label of a stretch are the stretch. -/
theorem filter_between_append {front stretch back : List (Label × Float)} {a z : Label × Float}
    (h : (front ++ (stretch ++ back)).Pairwise fun a b => a.1.Before b.1)
    (ha : stretch.head? = some a) (hz : stretch.getLast? = some z) :
    (front ++ (stretch ++ back)).filter (fun b => decide (Label.Between a.1 z.1 b.1)) = stretch := by
  obtain ⟨-, hrest, hfront⟩ := List.pairwise_append.1 h
  obtain ⟨hstretch, -, hback⟩ := List.pairwise_append.1 hrest
  have hbefore : ∀ b ∈ front, ¬ Label.Between a.1 z.1 b.1 := by
    intro b hb hbetween
    exact hbetween.1 (hfront b hb a (List.mem_append_left back (List.mem_of_mem_head? ha)))
  have hwithin : ∀ b ∈ stretch, Label.Between a.1 z.1 b.1 := fun b => between_of_mem hstretch ha hz
  have hafter : ∀ b ∈ back, ¬ Label.Between a.1 z.1 b.1 := by
    intro b hb hbetween
    exact hbetween.2 (hback z (List.mem_of_getLast? hz) b hb)
  rw [List.filter_append, List.filter_append, List.filter_eq_nil_iff.2 (by simpa using hbefore),
    List.filter_eq_self.2 (by simpa using hwithin), List.filter_eq_nil_iff.2 (by simpa using hafter),
    List.nil_append, List.append_nil]

/-- The label of the last bar before a position is the label of a bar. -/
theorem Series.label?_of_labelBefore? {s : Series} {position : Nat} {label : Label} (hpos : 0 < position)
    (h : s.labelBefore? position = some label) : s.label? (position - 1) = some label := by
  rwa [labelBefore?, if_neg (by omega)] at h

/-- The first label of a stretch is before its last one, unless the stretch is one bar. -/
theorem Series.order_of_labels {s : Series} {start stop : Nat} {first last : Label} (h : start < stop)
    (hstop : stop ≤ s.size) (hfirst : s.label? start = some first)
    (hlast : s.labelBefore? stop = some last) :
    first.Before last ∨ first = last ∧ stop = start + 1 := by
  have hlabel := label?_of_labelBefore? (by omega) hlast
  by_cases hone : stop = start + 1
  · have hsame : stop - 1 = start := by omega
    rw [hsame, hfirst] at hlabel
    exact .inr ⟨Option.some.inj hlabel, hone⟩
  · exact .inl ((s.before_iff_lt hfirst hlabel (by omega) (by omega)).2 (by omega))

/-- The labels of the bar at which a stretch starts and of the last bar before it stops span it. -/
theorem Series.spans_of_labels {s : Series} {start stop : Nat} {first last : Label} (h : start < stop)
    (hstop : stop ≤ s.size) (hfirst : s.label? start = some first)
    (hlast : s.labelBefore? stop = some last) : s.Spans start stop first last := by
  have hlength := s.length_stretch start hstop
  have hhead : (s.stretch start stop).head?.map Prod.fst = some first := by
    rw [List.head?_eq_getElem?, s.getElem?_stretch h hstop]
    exact hfirst
  have hend : (s.stretch start stop).getLast?.map Prod.fst = some last := by
    have hlabel := label?_of_labelBefore? (by omega) hlast
    have hsame : start + (stop - start - 1) = stop - 1 := by omega
    rw [List.getLast?_eq_getElem?, hlength, s.getElem?_stretch (by omega) hstop, hsame, hlabel]
  have hparts : s.bars = s.bars.take start ++ (s.stretch start stop ++ s.bars.drop stop) := by
    have hdrop : s.bars.drop stop = (s.bars.drop start).drop (stop - start) := by
      rw [List.drop_drop, Nat.add_sub_of_le (Nat.le_of_lt h)]
    rw [stretch, hdrop, List.take_append_drop, List.take_append_drop]
  refine ⟨hhead, hend, ?_⟩
  have hpairwise := s.bars_pairwise
  rw [hparts] at hpairwise
  obtain ⟨a, ha, rfl⟩ := Option.map_eq_some_iff.1 hhead
  obtain ⟨z, hz, rfl⟩ := Option.map_eq_some_iff.1 hend
  rw [between, hparts]
  exact filter_between_append hpairwise ha hz

/-! ## §2 Rows -/

/-- A row is that of a choice, and names the bars of its window. -/
structure SummaryRow.Names (series : Series) (c : Choice) (r : SummaryRow) : Prop where
  window : c.index = r.window
  pair : c.pair = ⟨r.fast, r.slow⟩
  trainScore : c.trainScore = r.trainScore
  testScore : c.testScore = r.testScore
  trainStart : series.label? c.split.trainStart = some r.trainStart
  trainEnd : series.labelBefore? c.split.trainStop = some r.trainEnd
  testStart : series.label? c.split.testStart = some r.testStart
  testEnd : series.labelBefore? c.split.testStop = some r.testEnd

theorem SummaryRow.names_of_of? {series : Series} {c : Choice} {r : SummaryRow}
    (h : SummaryRow.of? series c = some r) : r.Names series c := by
  simp only [of?, Option.bind_eq_bind, Option.bind_eq_some_iff, Option.pure_def, Option.some.injEq] at h
  obtain ⟨_, htrainStart, _, htrainEnd, _, htestStart, _, htestEnd, rfl⟩ := h
  exact ⟨rfl, rfl, rfl, rfl, htrainStart, htrainEnd, htestStart, htestEnd⟩

/-! ## §3 Windows -/

/-- A choice is about a window that lies within the series, and has the scores of its two slices. -/
structure Choice.Scored (series : Series) (train test : Nat) (c : Choice) : Prop where
  trainStop : c.split.trainStop = c.split.trainStart + train
  testStart : c.split.testStart = c.split.trainStop
  testStop : c.split.testStop = c.split.testStart + test
  within : c.split.testStop ≤ series.size
  train_pos : 0 < train
  test_pos : 0 < test
  trainScore : c.trainScore =
    score (series.slice c.split.trainStart c.split.trainStop) c.pair.fast c.pair.slow
  testScore : c.testScore =
    score (series.slice c.split.testStart c.split.testStop) c.pair.fast c.pair.slow

/-- Windows lie at least one test stretch apart, so that the test stretch of the one is over where that of
the other starts. -/
def Split.Apart (test : Nat) (a b : Split) : Prop :=
  a.trainStart + test ≤ b.trainStart

section Windows

variable {series : Series} {sweep : Sweep} {p : Plan}

theorem split_of_referenceChoice? {train test k : Nat} {c : Choice}
    (h : referenceChoice? series train test sweep k = some c) : c.split = windowBounds train test k := by
  obtain ⟨best, -, rfl⟩ := Option.map_eq_some_iff.1 h
  rfl

theorem scored_of_mem_choices (hlength : p.length = series.size) {c : Choice}
    (hc : c ∈ (Walk.over series sweep p).choices) : c.Scored series p.train p.test := by
  rw [choices_over] at hc
  obtain ⟨k, hk, hchoice⟩ := List.mem_filterMap.1 hc
  have hstop : k * p.test + p.train + p.test ≤ p.length :=
    Plan.testStop_le_length (Plan.windowBounds_mem_splits (List.mem_range.1 hk))
  obtain ⟨best, -, rfl⟩ := Option.map_eq_some_iff.1 hchoice
  refine ⟨rfl, rfl, rfl, hlength ▸ hstop, p.train_pos, p.test_pos, ?_, ?_⟩
  · simp only [windowBounds, slice_train]
  · simp only [windowBounds, slice_test]

/-- Choices are about windows one after the other, also where windows between them were skipped. -/
theorem choices_apart (series : Series) (sweep : Sweep) (p : Plan) :
    (Walk.over series sweep p).choices.Pairwise fun c d => c.split.Apart p.test d.split := by
  rw [choices_over, List.pairwise_filterMap]
  refine List.pairwise_lt_range.imp ?_
  intro j k hjk c hc d hd
  rw [split_of_referenceChoice? hc, split_of_referenceChoice? hd]
  -- Windows are numbered with the skipped ones, and each begins a test stretch after the one before.
  show j * p.test + p.test ≤ k * p.test
  rw [← Nat.succ_mul]
  exact Nat.mul_le_mul_right p.test hjk

end Windows

/-! ## §4 Tables -/

namespace SummaryRow

/-- A row shows the window of a choice: the bars from the first to the last label of each stretch are those
on which its score was computed, and the labels are in the order of time. -/
structure Shows (series : Series) (train test : Nat) (c : Choice) (r : SummaryRow) : Prop where
  pair : c.pair = ⟨r.fast, r.slow⟩
  trainBars : series.Spans c.split.trainStart c.split.trainStop r.trainStart r.trainEnd
  testBars : series.Spans c.split.testStart c.split.testStop r.testStart r.testEnd
  trainCount : (series.between r.trainStart r.trainEnd).length = train
  testCount : (series.between r.testStart r.testEnd).length = test
  trainScore : r.trainScore =
    score ((series.between r.trainStart r.trainEnd).map Prod.snd) r.fast r.slow
  testScore : r.testScore =
    score ((series.between r.testStart r.testEnd).map Prod.snd) r.fast r.slow
  trainOrder : r.trainStart.Before r.trainEnd ∨ r.trainStart = r.trainEnd ∧ train = 1
  stretchOrder : r.trainEnd.Before r.testStart
  testOrder : r.testStart.Before r.testEnd ∨ r.testStart = r.testEnd ∧ test = 1

/-- Each label of a row is before that of another row, and its bars are over before those on which the
other row is tested. -/
structure Precedes (r s : SummaryRow) : Prop where
  trainStart : r.trainStart.Before s.trainStart
  trainEnd : r.trainEnd.Before s.trainEnd
  testStart : r.testStart.Before s.testStart
  testEnd : r.testEnd.Before s.testEnd
  apart : r.testEnd.Before s.testStart

variable {series : Series} {train test : Nat} {c d : Choice} {r s : SummaryRow}

theorem Names.shows (h : r.Names series c) (hc : c.Scored series train test) :
    r.Shows series train test c := by
  obtain ⟨htrainStop, htestStart, htestStop, hwithin, htrain, htest, htrainScore, htestScore⟩ := hc
  have htrainBars := Series.spans_of_labels (by omega) (by omega) h.trainStart h.trainEnd
  have htestBars := Series.spans_of_labels (by omega) hwithin h.testStart h.testEnd
  have htrainOrder := Series.order_of_labels (by omega) (by omega) h.trainStart h.trainEnd
  have htestOrder := Series.order_of_labels (by omega) hwithin h.testStart h.testEnd
  have hlast := Series.label?_of_labelBefore? (by omega) h.trainEnd
  constructor
  case pair => exact h.pair
  case trainBars => exact htrainBars
  case testBars => exact htestBars
  case trainCount =>
    rw [htrainBars.covers, series.length_stretch _ (by omega)]
    omega
  case testCount =>
    rw [htestBars.covers, series.length_stretch _ hwithin]
    omega
  case trainScore =>
    rw [htrainBars.covers, series.map_snd_stretch, ← h.trainScore, htrainScore, h.pair]
  case testScore =>
    rw [htestBars.covers, series.map_snd_stretch, ← h.testScore, htestScore, h.pair]
  case trainOrder => exact htrainOrder.imp_right (And.imp_right fun hone => by omega)
  case stretchOrder =>
    exact (series.before_iff_lt hlast h.testStart (by omega) (by omega)).2 (by omega)
  case testOrder => exact htestOrder.imp_right (And.imp_right fun hone => by omega)

/-- Rows of windows that lie apart are one before the other. -/
theorem Names.precedes (hr : r.Names series c) (hs : s.Names series d) (hc : c.Scored series train test)
    (hd : d.Scored series train test) (hapart : c.split.Apart test d.split) : r.Precedes s := by
  obtain ⟨hctrain, hcnext, hctest, hcwithin, htrain, htest, -, -⟩ := hc
  obtain ⟨hdtrain, hdnext, hdtest, hdwithin, -, -, -, -⟩ := hd
  unfold Split.Apart at hapart
  have hrtrain := Series.label?_of_labelBefore? (by omega) hr.trainEnd
  have hrtest := Series.label?_of_labelBefore? (by omega) hr.testEnd
  have hstrain := Series.label?_of_labelBefore? (by omega) hs.trainEnd
  have hstest := Series.label?_of_labelBefore? (by omega) hs.testEnd
  constructor
  · exact (series.before_iff_lt hr.trainStart hs.trainStart (by omega) (by omega)).2 (by omega)
  · exact (series.before_iff_lt hrtrain hstrain (by omega) (by omega)).2 (by omega)
  · exact (series.before_iff_lt hr.testStart hs.testStart (by omega) (by omega)).2 (by omega)
  · exact (series.before_iff_lt hrtest hstest (by omega) (by omega)).2 (by omega)
  · exact (series.before_iff_lt hrtest hs.testStart (by omega) (by omega)).2 (by omega)

end SummaryRow

/-- **The table is in the order of time.** A run that succeeds has a table, with a row for each choice,
numbered from zero. Each row shows the window of its choice: its bars are as many as the lengths of the
stretches say, they are those on which the scores of the row were computed, training ends before testing
begins, and a stretch begins and ends with the same label only if it is one bar. And each row is before all
later ones, in every column of labels, whatever windows were skipped between them. -/
theorem summary_in_order {series : Series} {train test : Nat} {sweep : Sweep} {cs : List Choice}
    (h : run series train test sweep = .ok cs) :
    ∃ rows, summaryRows? series cs = some rows ∧
      rows.map SummaryRow.window = List.range rows.length ∧
      List.Forall₂ (SummaryRow.Shows series train test) cs rows ∧
      rows.Pairwise SummaryRow.Precedes := by
  obtain ⟨rows, hrows⟩ := exists_summaryRows h
  obtain ⟨p, hp, rfl⟩ := run_eq_ok h
  obtain ⟨hlength, rfl, rfl⟩ := Plan.of_eq_ok hp
  have hnames := forall₂_of_mapM hrows
    (R := fun c r => SummaryRow.Names series c r ∧ c.Scored series p.train p.test)
    fun c hc r hr => ⟨SummaryRow.names_of_of? hr, scored_of_mem_choices hlength hc⟩
  have hindices : (Walk.over series sweep p).choices.map Choice.index = rows.map SummaryRow.window := by
    rw [← List.forall₂_eq_eq_eq, List.forall₂_map_left_iff, List.forall₂_map_right_iff]
    exact hnames.imp fun c r hr => hr.1.window
  refine ⟨rows, hrows, ?_, hnames.imp fun c r hr => hr.1.shows hr.2, ?_⟩
  · rw [← hindices, ← hnames.length_eq, Walk.choices, choices, map_index_choicesFrom,
      List.range_eq_range']
  · exact pairwise_of_forall₂ hnames (choices_apart series sweep p)
      fun c r d s hr hs => hr.1.precedes hs.1 hr.2 hs.2

/-- Prices that jump up from zero, in the middle of the year 2015 with its leap second. -/
def midyearSeries : Series where
  closes := [0.0, 3.0, 1.0, 2.0, 4.0]
  times := some [(Instant.of? 1435708798 0).get rfl, (Instant.of? 1435708799 0).get rfl,
    (Instant.of? 1435708799 1250000000).get rfl, (Instant.of? 1435708800 0).get rfl,
    (Instant.of? 1435708801 0).get rfl]
  closes_ne_nil := nofun
  times_length := by simp
  times_pairwise := by
    intro times htimes
    cases htimes
    decide

set_option maxRecDepth 4000 in
/-- Of three windows the first is skipped. The rows of the other two name the bars from the second one on,
and each test stretch is one bar. -/
theorem summary_in_order_of_midyear :
    ∃ cs rows, run midyearSeries 2 1 ⟨[1], [2]⟩ = .ok cs ∧ summaryRows? midyearSeries cs = some rows ∧
      rows.map (fun r => (r.trainStart.text, r.testEnd.text)) =
        [("2015-06-30 23:59:59", "2015-07-01 00:00:00"),
          ("2015-06-30 23:59:60.250", "2015-07-01 00:00:01")] ∧
      rows.map SummaryRow.window = List.range rows.length ∧
      List.Forall₂ (SummaryRow.Shows midyearSeries 2 1) cs rows ∧ rows.Pairwise SummaryRow.Precedes := by
  have hrun : run midyearSeries 2 1 ⟨[1], [2]⟩ =
      .ok [⟨0, ⟨1, 3, 3, 4⟩, ⟨1, 2⟩, score [3.0, 1.0] 1 2, score [2.0] 1 2⟩,
        ⟨1, ⟨2, 4, 4, 5⟩, ⟨1, 2⟩, score [1.0, 2.0] 1 2, score [4.0] 1 2⟩] := rfl
  obtain ⟨rows, hrows, hindices, hshows, horder⟩ := summary_in_order hrun
  refine ⟨_, rows, hrun, hrows, ?_, hindices, hshows, horder⟩
  cases hrows
  decide +kernel

end Crossover
