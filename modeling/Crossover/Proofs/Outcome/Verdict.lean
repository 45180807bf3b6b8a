/-
Crossover.Proofs.Outcome.Verdict — what optimizing over a series ends with.

`Optimizer.fault?` lists everything that can be wrong in the order in which it counts: the fast periods,
the slow periods, the lengths, and last that no window finds a pair. `optimize_eq_error_iff` says that
optimizing fails with exactly this fault, and `optimize_eq_ok_iff` that it succeeds where there is none.
The recommendation at the end cannot fail, since it is reached with choices only.
-/
import Crossover.Outcome
import Crossover.Proofs.Tally.Recommendation
import Crossover.Proofs.Walk.Reference
import Crossover.Settings

namespace Crossover

open Text

/-! ## §1 Faults -/

/-- What is wrong with the lengths of a walk, or with all its windows. -/
def Optimizer.walkFault? (o : Optimizer) (series : Series) : Option RunError :=
  if o.train = 0 ∨ o.test = 0 ∨ series.size < o.train + o.test then
    some (.tooShort series.size o.train o.test)
  else if ∀ k < windowCount series.size o.train o.test,
      o.sweep.winner? (trainPrices series o.train o.test k) = none then
    some (.nothingChosen (windowCount series.size o.train o.test))
  else none

/-- The first thing that is wrong with optimizing over a series: with the fast periods, with the slow periods, or
with the walk. -/
def Optimizer.fault? (o : Optimizer) (series : Series) : Option RunError :=
  if o.sweep.fast = [] then some (.noPeriods .fast)
  else if 0 ∈ o.sweep.fast then some (.badPeriod .fast 0)
  else if o.sweep.slow = [] then some (.noPeriods .slow)
  else if 0 ∈ o.sweep.slow then some (.badPeriod .slow 0)
  else o.walkFault? series

/-- The faults of a sweep come before all others. -/
theorem fault?_eq (o : Optimizer) (series : Series) :
    o.fault? series = (sweepFault? o.sweep).or (o.walkFault? series) := by
  unfold Optimizer.fault? sweepFault? sideFault?
  by_cases h1 : o.sweep.fast = []
  · simp [h1]
  · by_cases h2 : 0 ∈ o.sweep.fast
    · simp [h1, h2]
    · by_cases h3 : o.sweep.slow = []
      · simp [h1, h2, h3]
      · by_cases h4 : 0 ∈ o.sweep.slow
        · simp [h1, h2, h3, h4]
        · simp [h1, h2, h3, h4]

/-! ## §2 Concluding -/

/-- A walk has no choices exactly when the search of each of its windows finds nothing. -/
theorem choices_over_eq_nil_iff {series : Series} {p : Plan} (h : p.length = series.size)
    (sweep : Sweep) :
    (Walk.over series sweep p).choices = [] ↔
      ∀ k < windowCount series.size p.train p.test,
        sweep.winner? (trainPrices series p.train p.test k) = none := by
  have hcount : windowCount series.size p.train p.test = p.count := by
    rw [← h, windowCount, Plan.count]
  rw [choices_over, hcount, List.filterMap_eq_nil_iff]
  simp [referenceChoice?]

/-- A walk ends with an outcome unless it has no choices. -/
theorem conclude_eq (o : Optimizer) (w : Walk) :
    (w.choices = [] ∧ o.conclude w = .error (.nothingChosen w.trials.length)) ∨
      (w.choices ≠ [] ∧ ∃ outcome, o.conclude w = .ok outcome) := by
  unfold Optimizer.conclude
  by_cases hnil : w.choices = []
  · exact .inl ⟨hnil, by simp [hnil]⟩
  · obtain ⟨pair, hpair⟩ := recommend_eq_ok hnil
    rw [if_neg (by simpa using hnil), hpair]
    exact .inr ⟨hnil, _, rfl⟩

/-! ## §3 Optimizing -/

/-- Optimizing is the walk and its conclusion. -/
theorem optimize_eq (o : Optimizer) (series : Series) :
    o.optimize series =
      match sweepFault? o.sweep with
      | some fault => .error fault
      | none =>
        (Plan.of series.size o.train o.test).bind fun p =>
          o.conclude (Walk.over series o.sweep p) := by
  unfold Optimizer.optimize
  rw [across_eq]
  cases sweepFault? o.sweep with
  | some fault => rfl
  | none =>
    cases Plan.of series.size o.train o.test with
    | error e => rfl
    | ok p => rfl

theorem walkFault?_of_tooShort {o : Optimizer} {series : Series} (hsize : series.size ≤ Natural.greatest)
    (h : ¬ (0 < o.train ∧ 0 < o.test ∧ stretchesFit series.size o.train o.test = true)) :
    o.walkFault? series = some (.tooShort series.size o.train o.test) := by
  rw [stretchesFit_iff hsize] at h
  unfold Optimizer.walkFault?
  rw [if_pos (by omega)]

theorem walkFault?_of_plan {o : Optimizer} {series : Series} {p : Plan}
    (hp : Plan.of series.size o.train o.test = .ok p) :
    o.walkFault? series =
      if (Walk.over series o.sweep p).choices = [] then
        some (.nothingChosen (Walk.over series o.sweep p).trials.length)
      else none := by
  obtain ⟨hlength, htrain, htest⟩ := Plan.of_eq_ok hp
  have hroom : ¬ (o.train = 0 ∨ o.test = 0 ∨ series.size < o.train + o.test) := by
    have := p.train_pos
    have := p.test_pos
    have := p.fits
    omega
  have htrials : (Walk.over series o.sweep p).trials.length =
      windowCount series.size o.train o.test := by
    rw [over_trials, trialsUpTo, List.length_map, List.length_range, Plan.count, windowCount, hlength,
      htrain, htest]
  unfold Optimizer.walkFault?
  rw [if_neg hroom, htrials]
  simp only [choices_over_eq_nil_iff hlength, htrain, htest]

/-- Optimizing ends with the first fault, and with an outcome if there is none. -/
theorem optimize_cases (o : Optimizer) {series : Series} (hsize : series.size ≤ Natural.greatest) :
    (∃ e, o.fault? series = some e ∧ o.optimize series = .error e) ∨
      (o.fault? series = none ∧ ∃ outcome, o.optimize series = .ok outcome) := by
  rw [fault?_eq, optimize_eq]
  cases hsweep : sweepFault? o.sweep with
  | some fault => exact .inl ⟨fault, rfl, rfl⟩
  | none =>
    rw [Option.none_or]
    cases hp : Plan.of series.size o.train o.test with
    | error e =>
      obtain ⟨rfl, hshort⟩ := Plan.of_eq_error_iff.1 hp
      exact .inl ⟨_, walkFault?_of_tooShort hsize hshort, rfl⟩
    | ok p =>
      rw [walkFault?_of_plan hp]
      rcases conclude_eq o (Walk.over series o.sweep p) with ⟨hnil, herror⟩ | ⟨hsome, hok⟩
      · rw [if_pos hnil]
        exact .inl ⟨_, rfl, herror⟩
      · rw [if_neg hsome]
        exact .inr ⟨rfl, hok⟩

theorem optimize_eq_error_iff (o : Optimizer) {series : Series} (hsize : series.size ≤ Natural.greatest)
    (e : RunError) : o.optimize series = .error e ↔ o.fault? series = some e := by
  rcases optimize_cases o hsize with ⟨e', hfault, herror⟩ | ⟨hnone, outcome, hok⟩
  · rw [hfault, herror]
    simp
  · rw [hnone, hok]
    simp

theorem optimize_eq_ok_iff (o : Optimizer) {series : Series} (hsize : series.size ≤ Natural.greatest) :
    (∃ outcome, o.optimize series = .ok outcome) ↔ o.fault? series = none := by
  rcases optimize_cases o hsize with ⟨e', hfault, herror⟩ | ⟨hnone, outcome, hok⟩
  · rw [hfault, herror]
    simp
  · rw [hnone, hok]
    simp

theorem fault?_ne_noChoices (o : Optimizer) (series : Series) : o.fault? series ≠ some .noChoices := by
  unfold Optimizer.fault? Optimizer.walkFault?
  repeat' split
  all_goals simp

/-! ## §4 Checked sweeps -/

theorem sweepFault?_of_checked {fast slow : List Nat} {s : Sweep}
    (h : Sweep.checked fast slow = .ok s) : sweepFault? s = none := by
  unfold Sweep.checked at h
  rw [check_eq] at h
  cases hfault : sweepFault? ⟨fast, slow⟩ with
  | some fault =>
    rw [hfault] at h
    cases h
  | none =>
    rw [hfault] at h
    cases h
    exact hfault

/-- The sweep of an optimizer made from settings has been checked. -/
theorem checked_of_optimizer {s : Settings} {o : Optimizer} (h : s.optimizer = .ok o) :
    Sweep.checked s.sweep.fast s.sweep.slow = .ok o.sweep := by
  unfold Settings.optimizer at h
  cases hsweep : Sweep.checked s.sweep.fast s.sweep.slow with
  | error e =>
    rw [hsweep] at h
    cases h
  | ok sweep =>
    rw [hsweep] at h
    cases h
    rfl

/-- A sweep that has been checked is not at fault. -/
theorem fault?_of_sweepFault?_eq_none {o : Optimizer} (h : sweepFault? o.sweep = none)
    (series : Series) (side : Side) (period : Nat) :
    o.fault? series ≠ some (.noPeriods side) ∧ o.fault? series ≠ some (.badPeriod side period) := by
  rw [fault?_eq, h, Option.none_or]
  unfold Optimizer.walkFault?
  constructor
  all_goals repeat' split
  all_goals simp

/-- **The verdict on an optimization.** It fails with the first fault and with no other, and succeeds
where there is none; it never fails for want of choices to recommend from. A sweep without a fast
period below a slow one makes every search come back empty. A sweep that has been checked, by the
settings or on its own, is not found at fault again. -/
theorem optimize_verdict (o : Optimizer) (series : Series) (hsize : series.size ≤ Natural.greatest) :
    (∀ e, o.optimize series = .error e ↔ o.fault? series = some e) ∧
      ((∃ outcome, o.optimize series = .ok outcome) ↔ o.fault? series = none) ∧
      o.optimize series ≠ .error .noChoices ∧
      ((∀ f ∈ o.sweep.fast, ∀ l ∈ o.sweep.slow, l ≤ f) →
        ∀ k, o.sweep.winner? (trainPrices series o.train o.test k) = none) ∧
      ((∃ s : Settings, s.optimizer = .ok o) ∨
          (∃ fast slow, Sweep.checked fast slow = .ok o.sweep) →
        ∀ side period, o.optimize series ≠ .error (.noPeriods side) ∧
          o.optimize series ≠ .error (.badPeriod side period)) := by
  refine ⟨optimize_eq_error_iff o hsize, optimize_eq_ok_iff o hsize, ?_, ?_, ?_⟩
  · rw [ne_eq, optimize_eq_error_iff o hsize]
    exact fault?_ne_noChoices o series
  · intro hdegenerate k
    exact winner?_of_degenerate hdegenerate _
  · intro hchecked side period
    have hsweep : sweepFault? o.sweep = none := by
      rcases hchecked with ⟨s, hs⟩ | ⟨fast, slow, hs⟩
      · exact sweepFault?_of_checked (checked_of_optimizer hs)
      · exact sweepFault?_of_checked hs
    rw [ne_eq, ne_eq, optimize_eq_error_iff o hsize, optimize_eq_error_iff o hsize]
    exact fault?_of_sweepFault?_eq_none hsweep series side period

/-- A checked sweep without candidates: each of the two windows of four prices comes back empty. -/
theorem optimize_verdict_of_degenerate :
    Optimizer.optimize ⟨2, 1, ⟨[3], [2]⟩⟩ jump = .error (.nothingChosen 2) ∧
      (∀ k, Sweep.winner? ⟨[3], [2]⟩ (trainPrices jump 2 1 k) = none) ∧
      Optimizer.optimize ⟨2, 1, ⟨[3], [2]⟩⟩ jump ≠ .error (.noPeriods .fast) := by
  have hverdict := optimize_verdict ⟨2, 1, ⟨[3], [2]⟩⟩ jump (by decide)
  refine ⟨(hverdict.1 _).2 rfl, hverdict.2.2.2.1 (by decide), ?_⟩
  exact (hverdict.2.2.2.2 (.inr ⟨[3], [2], rfl⟩) .fast 0).1

end Crossover
