/-
Crossover.Proofs.Walk.Shift — a series without its oldest prices.

Where the first prices of a series are taken away, as many as one test stretch is long, each window of
what remains is the next window of the series, moved. So the trials over the series are one trial
of its first window and then, moved, all trials over the rest (`trialsUpTo_succ_of_drop`). Moving commutes
with numbering (`choicesFrom_shift`): the choices of the rest are numbered one further if the first
window chose a pair, and as they are if it was skipped.
-/
import Crossover.Proofs.Walk.Isolation

namespace Crossover

/-! ## §1 Moving -/

/-- The same bars, counted with `bars` more in front. -/
def Split.shift (bars : Nat) (b : Split) : Split :=
  ⟨b.trainStart + bars, b.trainStop + bars, b.testStart + bars, b.testStop + bars⟩

def Trial.shift (bars : Nat) : Trial → Trial
  | .chosen b pair trainScore testScore => .chosen (b.shift bars) pair trainScore testScore
  | .skipped b => .skipped (b.shift bars)

/-- The same choice, with `bars` more bars and `chosen` more choices in front. -/
def Choice.shift (bars chosen : Nat) (c : Choice) : Choice :=
  { c with index := c.index + chosen, split := c.split.shift bars }

/-- Moved trials leave moved choices. -/
theorem choicesFrom_shift (next chosen bars : Nat) (trials : List Trial) :
    choicesFrom (next + chosen) (trials.map (Trial.shift bars)) =
      (choicesFrom next trials).map (Choice.shift bars chosen) := by
  induction trials generalizing next with
  | nil => rfl
  | cons t rest ih =>
    cases t with
    | skipped b => exact ih next
    | chosen b pair x y =>
      rw [List.map_cons, Trial.shift, choicesFrom, choicesFrom, List.map_cons, ← ih (next + 1),
        Nat.add_right_comm]
      rfl

/-! ## §2 Trials -/

section Trials

variable {series rest : Series} {bars : Nat}

theorem Series.slice_of_drop (h : rest.closes = series.closes.drop bars) (start stop : Nat) :
    series.slice (start + bars) (stop + bars) = rest.slice start stop := by
  unfold Series.slice
  rw [h, List.drop_drop, Nat.add_sub_add_right, Nat.add_comm bars start]

/-- A trial over the rest is a trial over the series, moved. -/
theorem Trial.run_shift (h : rest.closes = series.closes.drop bars) (sweep : Sweep) (b : Split) :
    Trial.run series sweep (b.shift bars) = (Trial.run rest sweep b).shift bars := by
  unfold Trial.run
  dsimp only [Split.shift]
  rw [Series.slice_of_drop h, Series.slice_of_drop h]
  cases sweep.winner? (rest.slice b.trainStart b.trainStop) with
  | none => rfl
  | some best => rfl

theorem windowBounds_succ (train test k : Nat) :
    windowBounds train test (k + 1) = (windowBounds train test k).shift test := by
  simp only [windowBounds, Split.shift, Nat.succ_mul, Split.mk.injEq, true_and]
  omega

/-- The trials over a series are that of its first window and those over the rest, moved. -/
theorem trialsUpTo_succ_of_drop {train test : Nat} (h : rest.closes = series.closes.drop test)
    (sweep : Sweep) (count : Nat) :
    trialsUpTo series train test sweep (count + 1) =
      Trial.run series sweep (windowBounds train test 0) ::
        (trialsUpTo rest train test sweep count).map (Trial.shift test) := by
  unfold trialsUpTo
  rw [List.range_succ_eq_map, List.map_cons, List.map_map, List.map_map]
  congr 1
  refine List.map_congr_left fun k _ => ?_
  rw [Function.comp_apply, Function.comp_apply, windowBounds_succ, Trial.run_shift h]

/-- One window fewer fits. -/
theorem Plan.count_of_drop {p q : Plan} (htrain : q.train = p.train) (htest : q.test = p.test)
    (hlength : p.length = q.length + p.test) : p.count = q.count + 1 := by
  have hroom : q.length + p.test - p.train - p.test = q.length - p.train - p.test + p.test := by
    have := q.fits
    omega
  unfold Plan.count
  rw [htrain, htest, hlength, hroom, Nat.add_div_right _ p.test_pos]

end Trials

/-! ## §3 Choices -/

/-- How many of the choices are about the window at the start of the series: one or none. -/
def chosenAtStart (cs : List Choice) : Nat :=
  if ∃ c ∈ cs, c.split.trainStart = 0 then 1 else 0

/-- A choice that was moved is not about the start of the series. -/
theorem trainStart_pos_of_mem_shift {bars chosen : Nat} (hbars : 0 < bars) {cs : List Choice}
    {c : Choice} (h : c ∈ cs.map (Choice.shift bars chosen)) : 0 < c.split.trainStart := by
  obtain ⟨d, -, rfl⟩ := List.mem_map.1 h
  exact Nat.add_pos_right _ hbars

/-- Of the choices of a first window and of moved ones behind it, those behind it are what is not at the
start. They are numbered one further if there is a choice at the start. -/
theorem filter_choices_cons_shift {bars : Nat} (hbars : 0 < bars) {first : Trial}
    (hfirst : ∀ b pair x y, first = .chosen b pair x y → b.trainStart = 0) (trials : List Trial) :
    (choices (first :: trials.map (Trial.shift bars))).filter (0 < ·.split.trainStart) =
      (choices trials).map
        (Choice.shift bars (chosenAtStart (choices (first :: trials.map (Trial.shift bars))))) := by
  -- The first trial tells at which number the moved choices begin.
  have hmoved (chosen : Nat) : ∀ c ∈ (choices trials).map (Choice.shift bars chosen),
      0 < c.split.trainStart := fun c hc => trainStart_pos_of_mem_shift hbars hc
  cases first with
  | skipped b =>
    have hall : choices (.skipped b :: trials.map (Trial.shift bars)) =
        (choices trials).map (Choice.shift bars 0) := choicesFrom_shift 0 0 bars trials
    have hnone : chosenAtStart ((choices trials).map (Choice.shift bars 0)) = 0 := by
      refine if_neg ?_
      rintro ⟨c, hc, hzero⟩
      exact absurd hzero (Nat.ne_of_gt (hmoved 0 c hc))
    rw [hall, hnone, List.filter_eq_self]
    exact fun c hc => decide_eq_true (hmoved 0 c hc)
  | chosen b pair x y =>
    have hstart : b.trainStart = 0 := hfirst b pair x y rfl
    have hall : choices (.chosen b pair x y :: trials.map (Trial.shift bars)) =
        ⟨0, b, pair, x, y⟩ :: (choices trials).map (Choice.shift bars 1) :=
      congrArg (List.cons _) (choicesFrom_shift 0 1 bars trials)
    have hone : chosenAtStart
        (⟨0, b, pair, x, y⟩ :: (choices trials).map (Choice.shift bars 1)) = 1 :=
      if_pos ⟨_, List.mem_cons_self, hstart⟩
    rw [hall, hone, List.filter_cons_of_neg (by simp [hstart]), List.filter_eq_self]
    exact fun c hc => decide_eq_true (hmoved 1 c hc)

/-- **Dropping the oldest prices drops the first window.** Take a run that succeeds on a series with room
for two windows, and leave out as many of the first prices as one test stretch is long. The run over the
rest succeeds, and its choices, moved to where they are in the whole series, are the old choices that do
not start with the series. These were numbered one further if the first window chose a pair, and the same
if it was skipped. -/
theorem run_without_oldest_prices {series rest : Series} {train test : Nat} {sweep : Sweep}
    {cs : List Choice} (hrun : run series train test sweep = .ok cs)
    (hroom : train + 2 * test ≤ series.size) (h : rest.closes = series.closes.drop test) :
    ∃ ds, run rest train test sweep = .ok ds ∧
      cs.filter (0 < ·.split.trainStart) = ds.map (Choice.shift test (chosenAtStart cs)) := by
  obtain ⟨hsweep, p, hp, rfl⟩ := run_eq_ok_iff.1 hrun
  obtain ⟨hlength, rfl, rfl⟩ := Plan.of_eq_ok hp
  have hsize : series.size = rest.size + p.test := by
    unfold Series.size at hroom ⊢
    rw [h, List.length_drop]
    omega
  obtain ⟨q, hq⟩ := Plan.of_resized hp (show p.train + p.test ≤ rest.size by omega)
  obtain ⟨hqlength, hqtrain, hqtest⟩ := Plan.of_eq_ok hq
  have hcount : p.count = q.count + 1 := Plan.count_of_drop hqtrain hqtest (by omega)
  refine ⟨_, run_eq_ok_iff.2 ⟨hsweep, q, hq, rfl⟩, ?_⟩
  rw [Walk.choices, Walk.choices, over_trials, over_trials, hqtrain, hqtest, hcount,
    trialsUpTo_succ_of_drop h]
  refine filter_choices_cons_shift p.test_pos (fun b pair x y hchosen => ?_) _
  rw [Trial.split_eq_of_run hchosen]
  exact Nat.zero_mul p.test

/-- What is left of the slide without its first price. -/
def slideOff : Series := Series.untimed [3.0, 1.0, 2.0, 9.0] (List.cons_ne_nil _ _)

theorem run_slideOn : run slideOn 2 1 ⟨[1], [2]⟩ =
    .ok [⟨0, ⟨0, 2, 2, 3⟩, ⟨1, 2⟩, score [5.0, 3.0] 1 2, score [1.0] 1 2⟩,
      ⟨1, ⟨1, 3, 3, 4⟩, ⟨1, 2⟩, score [3.0, 1.0] 1 2, score [2.0] 1 2⟩,
      ⟨2, ⟨2, 4, 4, 5⟩, ⟨1, 2⟩, score [1.0, 2.0] 1 2, score [9.0] 1 2⟩] := (rfl)

/-- The first of three windows goes, and as it chose a pair the other two are numbered one further in the
whole series than in the rest. -/
theorem run_without_oldest_prices_of_slide :
    2 + 2 * 1 ≤ slideOn.size ∧ slideOff.closes = slideOn.closes.drop 1 ∧
      ∃ ds, run slideOff 2 1 ⟨[1], [2]⟩ = .ok ds ∧
        [⟨1, ⟨1, 3, 3, 4⟩, ⟨1, 2⟩, score [3.0, 1.0] 1 2, score [2.0] 1 2⟩,
          ⟨2, ⟨2, 4, 4, 5⟩, ⟨1, 2⟩, score [1.0, 2.0] 1 2, score [9.0] 1 2⟩] =
          ds.map (Choice.shift 1 1) := by
  have hroom : 2 + 2 * 1 ≤ slideOn.size := by decide
  have hcloses : slideOff.closes = slideOn.closes.drop 1 := rfl
  obtain ⟨ds, hrest, hchoices⟩ := run_without_oldest_prices run_slideOn hroom hcloses
  exact ⟨hroom, hcloses, ds, hrest, hchoices⟩

end Crossover
