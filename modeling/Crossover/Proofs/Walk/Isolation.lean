/-
Crossover.Proofs.Walk.Isolation — which prices a window depends on.

A trial reads two stretches of the series and nothing else: the search reads the stretch that the
window trains on, and the pair that was found is scored on the stretch after it. So two series that
agree on the first stretch have the same search there (`SameSearch`), whatever they hold elsewhere,
and two that agree on both have the same trial (`run_congr`).

What a run reports for a window is what the trial of that window chose, apart from the number that
the earlier windows give it (`reported_choicesFrom_iff`). That carries the two facts over from one
window to the run that the window is part of.
-/
import Crossover.Proofs.Score.Causality
import Crossover.Proofs.Walk.Reference

namespace Crossover

/-! ## §1 Stretches -/

/-- Both series have the same prices at the positions from `start` up to and without `stop`. -/
def Series.AgreeOn (s t : Series) (start stop : Nat) : Prop :=
  ∀ i, start ≤ i → i < stop → s.closes[i]? = t.closes[i]?

theorem Series.AgreeOn.mono {s t : Series} {start stop start' stop' : Nat}
    (h : s.AgreeOn t start stop) (hstart : start ≤ start') (hstop : stop' ≤ stop) :
    s.AgreeOn t start' stop' :=
  fun i hi hi' => h i (Nat.le_trans hstart hi) (Nat.lt_of_lt_of_le hi' hstop)

/-- Series that agree on a stretch have the same slice there. -/
theorem Series.AgreeOn.slice_eq {s t : Series} {start stop : Nat} (h : s.AgreeOn t start stop) :
    s.slice start stop = t.slice start stop := by
  unfold Series.slice
  refine take_eq_of_agree fun i hi => ?_
  rw [List.getElem?_drop, List.getElem?_drop]
  exact h (start + i) (Nat.le_add_right start i) (by omega)

theorem Series.slice?_eq_some {s : Series} {start stop : Nat} (horder : start ≤ stop)
    (hstop : stop ≤ s.size) : s.slice? start stop = some (s.slice start stop) :=
  if_pos ⟨horder, hstop⟩

/-! ## §2 Trials -/

namespace Trial

/-- The searches of two trials had the same result: both chose the same pair with the same score on
the training stretch, or both were skipped. -/
inductive SameSearch : Trial → Trial → Prop where
  | skipped (b : Split) : SameSearch (.skipped b) (.skipped b)
  | chosen (b : Split) (pair : Pair) (trainScore x y : Float) :
      SameSearch (.chosen b pair trainScore x) (.chosen b pair trainScore y)

/-- The search sees the training stretch only. -/
theorem run_sameSearch {s t : Series} {b : Split} (h : s.AgreeOn t b.trainStart b.trainStop)
    (sweep : Sweep) : SameSearch (run s sweep b) (run t sweep b) := by
  unfold run
  rw [h.slice_eq]
  cases sweep.winner? (t.slice b.trainStart b.trainStop) with
  | none => exact .skipped b
  | some best => exact .chosen b best.pair best.score _ _

/-- A trial sees its two stretches only. -/
theorem run_congr {s t : Series} {b : Split} (htrain : s.AgreeOn t b.trainStart b.trainStop)
    (htest : s.AgreeOn t b.testStart b.testStop) (sweep : Sweep) :
    run s sweep b = run t sweep b := by
  unfold run
  rw [htrain.slice_eq, htest.slice_eq]

/-- A trial is about the window that it was made for. -/
theorem split_eq_of_run {s : Series} {sweep : Sweep} {b b' : Split} {pair : Pair} {x y : Float}
    (h : run s sweep b = .chosen b' pair x y) : b' = b := by
  unfold run at h
  cases hw : sweep.winner? (s.slice b.trainStart b.trainStop) with
  | none =>
    rw [hw] at h
    cases h
  | some best =>
    rw [hw] at h
    cases h
    rfl

/-- Where both stretches lie within the series, no slice fails. -/
theorem run?_eq_some {s : Series} {b : Split} (htrain : b.trainStart ≤ b.trainStop)
    (hnext : b.trainStop ≤ b.testStart) (htest : b.testStart ≤ b.testStop)
    (hstop : b.testStop ≤ s.size) (sweep : Sweep) : run? s sweep b = some (run s sweep b) := by
  have htrainSlice : s.slice? b.trainStart b.trainStop = some (s.slice b.trainStart b.trainStop) :=
    Series.slice?_eq_some htrain (by omega)
  have htestSlice : s.slice? b.testStart b.testStop = some (s.slice b.testStart b.testStop) :=
    Series.slice?_eq_some htest hstop
  unfold run? run
  rw [htrainSlice, htestSlice]
  dsimp only
  cases sweep.winner? (s.slice b.trainStart b.trainStop) with
  | none => rfl
  | some best => rfl

end Trial

/-- Both stretches of a window have bars of the series. -/
theorem Plan.stretches_of_mem_splits {p : Plan} {b : Split} (h : b ∈ p.splits) :
    b.trainStart < b.trainStop ∧ b.testStart = b.trainStop ∧ b.testStart < b.testStop ∧
      b.testStop ≤ p.length := by
  have hstop := Plan.testStop_le_length h
  obtain ⟨k, -, rfl⟩ := List.mem_map.1 h
  exact ⟨Nat.lt_add_of_pos_right p.train_pos, rfl, Nat.lt_add_of_pos_right p.test_pos, hstop⟩

/-- The test stretch of a window begins where its training stretch stops. -/
theorem Plan.bounds_of_mem_splits {p : Plan} {b : Split} (h : b ∈ p.splits) :
    b.trainStart ≤ b.trainStop ∧ b.testStart = b.trainStop ∧ b.testStart ≤ b.testStop ∧
      b.testStop ≤ p.length := by
  obtain ⟨htrain, hnext, htest, hstop⟩ := Plan.stretches_of_mem_splits h
  exact ⟨Nat.le_of_lt htrain, hnext, Nat.le_of_lt htest, hstop⟩

/-! ## §3 Reports -/

/-- Some choice is about window `b` and has these findings, whatever its number. -/
def Reported (cs : List Choice) (b : Split) (pair : Pair) (trainScore testScore : Float) : Prop :=
  ∃ index, ⟨index, b, pair, trainScore, testScore⟩ ∈ cs

/-- What is reported is what a trial chose; the numbering neither adds nor drops anything. -/
theorem reported_choicesFrom_iff (next : Nat) (trials : List Trial) (b : Split) (pair : Pair)
    (x y : Float) :
    Reported (choicesFrom next trials) b pair x y ↔ .chosen b pair x y ∈ trials := by
  unfold Reported
  -- For any first number, since each choice raises the number of the next.
  induction trials generalizing next with
  | nil => simp [choicesFrom]
  | cons t rest ih =>
    cases t with
    | skipped b' =>
      rw [choicesFrom, ih]
      simp
    | chosen b' pair' x' y' =>
      simp only [choicesFrom, List.mem_cons, exists_or, ih, Choice.mk.injEq, Trial.chosen.injEq,
        exists_and_right, exists_eq, true_and]

/-- A run reports for a window of its plan what the trial of that window chose. -/
theorem reported_over_iff {series : Series} {sweep : Sweep} {p : Plan} {b : Split}
    (hb : b ∈ p.splits) (pair : Pair) (x y : Float) :
    Reported (Walk.over series sweep p).choices b pair x y ↔
      Trial.run series sweep b = .chosen b pair x y := by
  rw [Walk.choices, choices, reported_choicesFrom_iff, Walk.over, List.mem_map]
  constructor
  · rintro ⟨b', -, hrun⟩
    have hsame : b = b' := Trial.split_eq_of_run hrun
    rw [hsame] at hrun ⊢
    exact hrun
  · intro hrun
    exact ⟨b, hb, hrun⟩

/-- A choice of a walk is what the trial of a window of its plan chose. -/
theorem run_of_mem_choices {series : Series} {sweep : Sweep} {p : Plan} {c : Choice}
    (h : c ∈ (Walk.over series sweep p).choices) :
    c.split ∈ p.splits ∧
      Trial.run series sweep c.split = .chosen c.split c.pair c.trainScore c.testScore := by
  have hreported : Reported (Walk.over series sweep p).choices c.split c.pair c.trainScore c.testScore :=
    ⟨c.index, h⟩
  obtain ⟨b, hb, htrial⟩ := List.mem_map.1 ((reported_choicesFrom_iff 0 _ _ _ _ _).1 hreported)
  have hsame : c.split = b := Trial.split_eq_of_run htrial
  rw [hsame] at htrial ⊢
  exact ⟨hb, htrial⟩

/-- The search of a window found the pair of its choice, which is then scored on the test stretch. -/
theorem search_of_mem_choices {series : Series} {sweep : Sweep} {p : Plan} {c : Choice}
    (h : c ∈ (Walk.over series sweep p).choices) :
    sweep.winner? (series.slice c.split.trainStart c.split.trainStop) = some ⟨c.pair, c.trainScore⟩ ∧
      c.testScore = c.pair.score (series.slice c.split.testStart c.split.testStop) := by
  have htrial := (run_of_mem_choices h).2
  unfold Trial.run at htrial
  cases hfound : sweep.winner? (series.slice c.split.trainStart c.split.trainStop) with
  | none => simp [hfound] at htrial
  | some found =>
    simp only [hfound, Trial.chosen.injEq, true_and] at htrial
    obtain ⟨hpair, hscore, htest⟩ := htrial
    exact ⟨by simp [← hpair, ← hscore], by rw [← hpair, htest]⟩

/-- Trials with the same search are reported alike, but for the score on the test stretch. -/
theorem Trial.SameSearch.exists_chosen_iff {a b : Trial} (h : SameSearch a b) (split : Split)
    (pair : Pair) (x : Float) :
    (∃ y, a = .chosen split pair x y) ↔ ∃ y, b = .chosen split pair x y := by
  cases h with
  | skipped => simp
  | chosen b' pair' x' y' z' => simp

/-! ## §4 Isolation -/

/-- **A window depends on its own prices only.** Take two series of one length and a window of the plan
that both have. If they agree on the training stretch, the window's search is the same in both, whatever
the test stretch and all other bars hold; if they agree on the test stretch as well, the whole trial
is. So where a run over one succeeds, a run over the other does, and reports the same pair with the same
training score for the window, or nothing like the first; and the same test score too if the test
stretches agree. -/
theorem window_depends_on_own_prices {s t : Series} (hsize : s.size = t.size) {train test : Nat}
    {p : Plan} (hp : Plan.of s.size train test = .ok p) (sweep : Sweep) {b : Split}
    (hb : b ∈ p.splits) :
    (Trial.run? s sweep b = some (Trial.run s sweep b) ∧
        Trial.run? t sweep b = some (Trial.run t sweep b)) ∧
      (s.AgreeOn t b.trainStart b.trainStop →
        Trial.SameSearch (Trial.run s sweep b) (Trial.run t sweep b)) ∧
      (s.AgreeOn t b.trainStart b.testStop → Trial.run s sweep b = Trial.run t sweep b) ∧
      ∀ cs, run s train test sweep = .ok cs →
        ∃ ds, run t train test sweep = .ok ds ∧
          (s.AgreeOn t b.trainStart b.trainStop →
            ∀ pair x, (∃ y, Reported cs b pair x y) ↔ ∃ y, Reported ds b pair x y) ∧
          (s.AgreeOn t b.trainStart b.testStop →
            ∀ pair x y, Reported cs b pair x y ↔ Reported ds b pair x y) := by
  obtain ⟨hlength, -, -⟩ := Plan.of_eq_ok hp
  obtain ⟨htrain, hnext, htest, hstop⟩ := Plan.bounds_of_mem_splits hb
  have hsame : s.AgreeOn t b.trainStart b.testStop → Trial.run s sweep b = Trial.run t sweep b := by
    intro h
    exact Trial.run_congr (h.mono (Nat.le_refl _) (by omega)) (h.mono (by omega) (Nat.le_refl _)) sweep
  refine ⟨⟨?_, ?_⟩, fun h => Trial.run_sameSearch h sweep, hsame, fun cs hcs => ?_⟩
  · exact Trial.run?_eq_some htrain (by omega) htest (by omega) sweep
  · exact Trial.run?_eq_some htrain (by omega) htest (by omega) sweep
  · obtain ⟨hsweep, q, hq, rfl⟩ := run_eq_ok_iff.1 hcs
    obtain rfl : q = p := Except.ok.inj (hq.symm.trans hp)
    refine ⟨_, run_eq_ok_iff.2 ⟨hsweep, q, hsize ▸ hp, rfl⟩, fun h pair x => ?_, fun h pair x y => ?_⟩
    · simp only [reported_over_iff hb]
      exact (Trial.run_sameSearch h sweep).exists_chosen_iff b pair x
    · rw [reported_over_iff hb, reported_over_iff hb, hsame h]

/-- Prices that jump up from zero and go on. -/
def jumpOn : Series := Series.untimed [0.0, 3.0, 1.0, 2.0, 4.0] (List.cons_ne_nil _ _)

/-- The same prices but for the first and the last one. -/
def slideOn : Series := Series.untimed [5.0, 3.0, 1.0, 2.0, 9.0] (List.cons_ne_nil _ _)

theorem jumpOn_agreeOn_slideOn : jumpOn.AgreeOn slideOn 1 4 := by
  have hagree : ∀ i < 4, 1 ≤ i →
      ([0.0, 3.0, 1.0, 2.0, 4.0] : List Float)[i]? = [5.0, 3.0, 1.0, 2.0, 9.0][i]? := by decide
  exact fun i hstart hstop => hagree i hstop hstart

/-- The second window of both series has the same trial. The third is tested on prices that differ; it
has the same search, and a run over either series reports the same pair for it. -/
theorem window_depends_on_own_prices_of_jump :
    Trial.run jumpOn ⟨[1], [2]⟩ ⟨1, 3, 3, 4⟩ = Trial.run slideOn ⟨[1], [2]⟩ ⟨1, 3, 3, 4⟩ ∧
      Trial.SameSearch (Trial.run jumpOn ⟨[1], [2]⟩ ⟨2, 4, 4, 5⟩)
        (Trial.run slideOn ⟨[1], [2]⟩ ⟨2, 4, 4, 5⟩) ∧
      ∃ ds, run slideOn 2 1 ⟨[1], [2]⟩ = .ok ds ∧
        ∃ y, Reported ds ⟨2, 4, 4, 5⟩ ⟨1, 2⟩ (score [1.0, 2.0] 1 2) y := by
  have hsize : jumpOn.size = slideOn.size := by decide
  have hplan : Plan.of jumpOn.size 2 1 = .ok ⟨5, 2, 1, by decide, by decide, by decide⟩ :=
    dif_pos ⟨by decide, by decide, by decide⟩
  have hsecond := @window_depends_on_own_prices jumpOn slideOn hsize 2 1 _ hplan ⟨[1], [2]⟩
    ⟨1, 3, 3, 4⟩ (by decide)
  have hthird := @window_depends_on_own_prices jumpOn slideOn hsize 2 1 _ hplan ⟨[1], [2]⟩
    ⟨2, 4, 4, 5⟩ (by decide)
  have htrain : jumpOn.AgreeOn slideOn 2 4 :=
    jumpOn_agreeOn_slideOn.mono (by decide) (by decide)
  have hjump : Trial.run jumpOn ⟨[1], [2]⟩ ⟨2, 4, 4, 5⟩ =
      .chosen ⟨2, 4, 4, 5⟩ ⟨1, 2⟩ (score [1.0, 2.0] 1 2) (score [4.0] 1 2) := rfl
  obtain ⟨ds, hslide, hreport, -⟩ := hthird.2.2.2 _ (run_eq_ok_iff.2 ⟨rfl, _, hplan, rfl⟩)
  refine ⟨hsecond.2.2.1 jumpOn_agreeOn_slideOn, hthird.2.1 htrain, ds, hslide, ?_⟩
  exact (hreport htrain _ _).1 ⟨_, (reported_over_iff (by decide) _ _ _).2 hjump⟩

end Crossover
