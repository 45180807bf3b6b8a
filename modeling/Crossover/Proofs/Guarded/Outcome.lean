/-
Crossover.Proofs.Guarded.Outcome — nothing goes out of bounds from a series to its summary.

Optimizing walks forward, groups the choices and recommends a pair; the summary counts choices, and the
table of the windows names the bars at which a stretch starts and ends. With the guards of the modules
before, every part of this is there, and is what the program computes without them
(`nothing_out_of_bounds`), for a series with no more bars than 64 bits can count, and whatever the lengths
and the periods are.

Out of the guards stays the product of two list lengths that the first notice shows, which is no position.

  §1 Counts    — counting and averaging a list.
  §2 Summaries — the text of an outcome, and the table of its windows.
  §3 Bounds    — the result.
-/
import Crossover.Proofs.Guarded.Slots
import Crossover.Proofs.Guarded.Walk
import Crossover.Proofs.Outcome.Consistency
import Crossover.Summary

namespace Crossover

open Text

namespace Guarded

/-! ## §1 Counts -/

def countStep? (property : α → Bool) (n : Nat) (x : α) : Option Nat :=
  if property x then lengthSum? n 1 else some n

/-- How many elements of a list have a property, counted one by one. -/
def count? (property : α → Bool) (xs : List α) : Option Nat :=
  xs.foldlM (countStep? property) 0

def meanStep? (total : Float × Nat) (x : Float) : Option (Float × Nat) := do
  let count ← lengthSum? total.2 1
  return (total.1 + x, count)

/-- The mean of a list, its elements added up and counted at once; zero for an empty one. -/
def meanScore? (xs : List Float) : Option Float := do
  let total ← xs.foldlM meanStep? (0.0, 0)
  return if total.2 = 0 then 0.0 else total.1 / Float.ofNat total.2

theorem foldlM_countStep?_eq {property : α → Bool} {xs : List α} {n : Nat}
    (h : n + xs.length ≤ Natural.greatest) :
    xs.foldlM (countStep? property) n = some (n + (xs.filter property).length) := by
  induction xs generalizing n with
  | nil => rfl
  | cons x rest ih =>
    rw [List.length_cons] at h
    rw [List.foldlM_cons, countStep?]
    by_cases hx : property x = true
    · rw [if_pos hx, lengthSum?_eq (show n + 1 ≤ Natural.greatest by omega),
        List.filter_cons_of_pos hx, List.length_cons, Nat.add_comm (rest.filter property).length 1,
        ← Nat.add_assoc]
      exact ih (by omega)
    · rw [if_neg hx, List.filter_cons_of_neg hx]
      exact ih (by omega)

theorem count?_eq {property : α → Bool} {xs : List α} (h : xs.length ≤ Natural.greatest) :
    count? property xs = some (xs.filter property).length := by
  rw [count?, foldlM_countStep?_eq (by omega), Nat.zero_add]

theorem foldlM_meanStep?_eq {xs : List Float} {sum : Float} {n : Nat}
    (h : n + xs.length ≤ Natural.greatest) :
    xs.foldlM meanStep? (sum, n) = some (xs.foldl (· + ·) sum, n + xs.length) := by
  induction xs generalizing sum n with
  | nil => rfl
  | cons x rest ih =>
    rw [List.length_cons] at h
    rw [List.foldlM_cons, meanStep?, lengthSum?_eq (show n + 1 ≤ Natural.greatest by omega),
      List.foldl_cons, List.length_cons, Nat.add_comm rest.length 1, ← Nat.add_assoc]
    exact ih (by omega)

theorem meanScore?_eq {xs : List Float} (h : xs.length ≤ Natural.greatest) :
    meanScore? xs = some (meanScore xs) := by
  rw [meanScore?, foldlM_meanStep?_eq (by omega)]
  cases xs with
  | nil => rfl
  | cons x rest =>
    simp only [Option.bind_eq_bind, Option.bind_some, Nat.zero_add]
    rfl

/-! ## §2 Summaries -/

/-- The summary of an outcome: its counts, its means and its selection. -/
def summary? (o : Outcome) : Option String := do
  let skipped ← minus? o.windows o.choices.length
  let trainMean ← meanScore? (o.choices.map Choice.trainScore)
  let testMean ← meanScore? (o.choices.map Choice.testScore)
  let frequency ← count? (fun c => c.pair = o.selection) o.choices
  return "Walk-Forward Results: " ++ Digits.text o.choices.length ++ " windows (" ++
    Digits.text skipped ++ " skipped)\nAvg Train Score: " ++ Notice.scoreText trainMean ++
    "\nAvg Test Score: " ++ Notice.scoreText testMean ++ "\nSelected: " ++ o.selection.text ++
    " (chosen in " ++ Digits.text frequency ++ " windows)"

/-- The summary of an outcome with no more choices than windows is there. -/
theorem summary?_eq {o : Outcome} (hwindows : o.choices.length ≤ o.windows)
    (hlength : o.choices.length ≤ Natural.greatest) : summary? o = some o.summary := by
  have hmean : ∀ f : Choice → Float, meanScore? (o.choices.map f) = some (meanScore (o.choices.map f)) :=
    fun f => meanScore?_eq (by rwa [List.length_map])
  rw [summary?, minus?_eq hwindows]
  simp only [Option.bind_eq_bind, Option.bind_some, hmean, count?_eq hlength]
  rfl

end Guarded

/-- A series has a label for each of its bars. -/
theorem Series.exists_label (s : Series) {position : Nat} (h : position < s.size) :
    ∃ label, s.label? position = some label := by
  unfold label?
  cases htimes : s.times with
  | none => exact ⟨_, rfl⟩
  | some times =>
    have hlength : times.length = s.size := s.times_length times htimes
    exact ⟨.time times[position], by simp [show position < times.length by omega]⟩

/-- There is a last bar before a position behind some bar. -/
theorem Series.exists_labelBefore (s : Series) {position : Nat} (hpos : 0 < position)
    (h : position ≤ s.size) : ∃ label, s.labelBefore? position = some label := by
  obtain ⟨label, hlabel⟩ := s.exists_label (show position - 1 < s.size by omega)
  exact ⟨label, by rw [labelBefore?, if_neg (by omega), hlabel]⟩

/-- A list is there if each of its elements is. -/
theorem exists_mapM {f : α → Option β} {xs : List α} (h : ∀ x ∈ xs, ∃ y, f x = some y) :
    ∃ ys, xs.mapM f = some ys := by
  induction xs with
  | nil => exact ⟨[], rfl⟩
  | cons x rest ih =>
    obtain ⟨y, hy⟩ := h x List.mem_cons_self
    obtain ⟨ys, hys⟩ := ih fun z hz => h z (List.mem_cons_of_mem x hz)
    refine ⟨y :: ys, ?_⟩
    rw [List.mapM_cons, hy, hys]
    rfl

/-- The table of the windows of a run names bars of its series only. -/
theorem exists_summaryRows {series : Series} {train test : Nat} {sweep : Sweep} {cs : List Choice}
    (h : run series train test sweep = .ok cs) : ∃ rows, summaryRows? series cs = some rows := by
  obtain ⟨p, hp, rfl⟩ := run_eq_ok h
  have hlength : p.length = series.size := (Plan.of_eq_ok hp).1
  refine exists_mapM fun c hc => ?_
  obtain ⟨htrain, hnext, htest, hstop⟩ := Plan.stretches_of_mem_splits (run_of_mem_choices hc).1
  obtain ⟨trainStart, htrainStart⟩ :=
    series.exists_label (show c.split.trainStart < series.size by omega)
  obtain ⟨trainEnd, htrainEnd⟩ :=
    series.exists_labelBefore (show 0 < c.split.trainStop by omega) (by omega)
  obtain ⟨testStart, htestStart⟩ :=
    series.exists_label (show c.split.testStart < series.size by omega)
  obtain ⟨testEnd, htestEnd⟩ :=
    series.exists_labelBefore (show 0 < c.split.testStop by omega) (by omega)
  exact ⟨_, by rw [SummaryRow.of?, htrainStart, htrainEnd, htestStart, htestEnd]; rfl⟩

/-! ## §3 Bounds -/

namespace Guarded

/-- Walks forward over a series and recommends a pair. -/
def optimize? (o : Optimizer) (series : Series) : Option (Except RunError Outcome) := do
  match ← across? series o.train o.test o.sweep with
  | .error fault => return .error fault
  | .ok walk =>
    let choices ← choicesFrom? 0 walk.trials
    if choices.isEmpty then return .error (.nothingChosen walk.trials.length)
    match ← recommend? choices with
    | .error fault => return .error fault
    | .ok selection => return .ok ⟨choices, selection, o.train, o.test, walk.trials.length⟩

/-- Optimizing is there, whatever its lengths and its periods are. -/
theorem optimize?_eq {series : Series} (hsize : series.size ≤ Natural.greatest) (o : Optimizer) :
    optimize? o series = some (o.optimize series) := by
  rw [optimize?, across?_eq hsize, Optimizer.optimize]
  cases hwalk : Walk.across series o.train o.test o.sweep with
  | error fault => rfl
  | ok walk =>
    have hcount : 0 + walk.trials.length ≤ Natural.greatest := by
      have := length_trials_le hwalk
      omega
    simp only [Option.bind_eq_bind, Option.bind_some, choicesFrom?_eq hcount, recommend?_eq]
    show _ = some (o.conclude walk)
    unfold Optimizer.conclude
    rw [← choices, ← Walk.choices]
    cases hempty : walk.choices.isEmpty with
    | true => rfl
    | false =>
      cases recommend walk.choices with
      | error fault => rfl
      | ok selection => rfl

end Guarded

/-- **Nothing goes out of bounds.** Take a series with no more bars than 64 bits can count, and any lengths
and any periods, empty lists, zeros and repetitions included. A run and an optimization then cut and index
every list within its bounds, take no position below zero or beyond 64 bits, lay windows with a positive
step only and average over at least one value: with a guard at every such place they are there, and are
what they are without. The same holds of the tallies of their choices, of the summary of an outcome, and
of the table of the windows over the same series. -/
theorem nothing_out_of_bounds {series : Series} (hsize : series.size ≤ Natural.greatest) :
    (∀ train test sweep,
      Guarded.run? series train test sweep = some (run series train test sweep) ∧
      ∀ cs, run series train test sweep = .ok cs →
        Guarded.tallies? cs = some (tallies cs) ∧ ∃ rows, summaryRows? series cs = some rows) ∧
    ∀ o : Optimizer,
      Guarded.optimize? o series = some (o.optimize series) ∧
      ∀ outcome, o.optimize series = .ok outcome →
        Guarded.summary? outcome = some outcome.summary ∧
        Guarded.tallies? outcome.choices = some outcome.tallies ∧
        ∃ rows, summaryRows? series outcome.choices = some rows := by
  refine ⟨fun train test sweep => ⟨Guarded.run?_eq hsize train test sweep, fun cs hcs => ?_⟩,
    fun o => ⟨Guarded.optimize?_eq hsize o, fun outcome houtcome => ?_⟩⟩
  · exact ⟨Guarded.tallies?_eq cs, exists_summaryRows hcs⟩
  · obtain ⟨p, hp, hrun, hchoices, -, -, hwindows⟩ := optimize_eq_ok houtcome
    have hle : outcome.choices.length ≤ outcome.windows := by
      have := length_choices_add_empty series o.sweep p
      rw [hchoices, hwindows]
      omega
    have hcount : outcome.choices.length ≤ Natural.greatest := by
      have := Guarded.length_splits_le p
      rw [(Plan.of_eq_ok hp).1] at this
      omega
    exact ⟨Guarded.summary?_eq hle hcount, Guarded.tallies?_eq outcome.choices, exists_summaryRows hrun⟩

/-- Four bars bear the greatest lengths and periods that there are, and are summed up and listed after a
walk that skips a window. -/
theorem nothing_out_of_bounds_of_jump :
    jump.size ≤ Natural.greatest ∧
      Guarded.run? jump Natural.greatest Natural.greatest ⟨[1], [Natural.greatest]⟩ =
        some (.error (.tooShort 4 Natural.greatest Natural.greatest)) ∧
      Guarded.optimize? ⟨2, 1, ⟨[1], [2]⟩⟩ jump = some (.ok jumpOutcome) ∧
      Guarded.summary? jumpOutcome = some jumpOutcome.summary ∧
      ∃ rows, summaryRows? jump jumpOutcome.choices = some rows := by
  have hsize : jump.size ≤ Natural.greatest := by decide
  obtain ⟨hrun, hoptimize⟩ := nothing_out_of_bounds hsize
  have hlong := (hrun Natural.greatest Natural.greatest ⟨[1], [Natural.greatest]⟩).1
  obtain ⟨hguarded, hafter⟩ := hoptimize ⟨2, 1, ⟨[1], [2]⟩⟩
  obtain ⟨hsummary, -, hrows⟩ := hafter jumpOutcome optimize_jump
  rw [optimize_jump] at hguarded
  exact ⟨hsize, hlong, hguarded, hsummary, hrows⟩

end Crossover
