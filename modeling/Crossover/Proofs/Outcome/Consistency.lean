/-
Crossover.Proofs.Outcome.Consistency — the parts of an outcome agree with each other.

An outcome keeps its choices, the selection and the number of windows, and everything else is computed
from these when it is asked for. `optimize_eq_ok` says where the three come from. Each window leaves a
choice or is skipped (`length_choices_add_empty`), and each choice is counted for one pair
(`Crossover.Proofs.Tally.Groups`), so the counts that an outcome reports add up.

  §1 Windows   — a choice or an empty search for each of them.
  §2 Selection — a pair of the sweep, chosen by some window.
  §3 Outcomes  — everything that an outcome reports.
-/
import Crossover.Proofs.Outcome.Verdict
import Crossover.Proofs.Tally.Groups
import Crossover.Proofs.Walk.Isolation

namespace Crossover

open Text

/-! ## §1 Windows -/

/-- Whether the search over the training stretch of a window finds nothing. -/
def searchIsEmpty (series : Series) (sweep : Sweep) (b : Split) : Bool :=
  (sweep.winner? (series.slice b.trainStart b.trainStop)).isNone

/-- The number of windows of a plan whose search finds nothing. -/
def emptySearches (series : Series) (sweep : Sweep) (p : Plan) : Nat :=
  p.splits.countP (searchIsEmpty series sweep)

/-- Trials of some windows leave a choice for each window, or its search was empty. -/
theorem length_choicesFrom_add_empty (series : Series) (sweep : Sweep) (next : Nat)
    (splits : List Split) :
    (choicesFrom next (splits.map (Trial.run series sweep))).length +
      splits.countP (searchIsEmpty series sweep) = splits.length := by
  induction splits generalizing next with
  | nil => rfl
  | cons b rest ih =>
    rw [List.map_cons, List.countP_cons, List.length_cons]
    cases hbest : sweep.winner? (series.slice b.trainStart b.trainStop) with
    | none =>
      have htrial : Trial.run series sweep b = .skipped b := by simp [Trial.run, hbest]
      have hempty : searchIsEmpty series sweep b = true := by simp [searchIsEmpty, hbest]
      rw [htrial, choicesFrom, if_pos hempty, ← ih next]
      omega
    | some best =>
      have htrial : ∃ x, Trial.run series sweep b = .chosen b best.pair best.score x :=
        ⟨_, by simp [Trial.run, hbest]; rfl⟩
      have hfound : ¬ searchIsEmpty series sweep b = true := by simp [searchIsEmpty, hbest]
      obtain ⟨x, htrial⟩ := htrial
      rw [htrial, choicesFrom, if_neg hfound, List.length_cons, ← ih (next + 1)]
      omega

/-- Every window of a walk leaves a choice, or its search was empty. -/
theorem length_choices_add_empty (series : Series) (sweep : Sweep) (p : Plan) :
    (Walk.over series sweep p).choices.length + emptySearches series sweep p = p.splits.length :=
  length_choicesFrom_add_empty series sweep 0 p.splits

/-! ## §2 Selection -/

/-- Each choice of a walk is a candidate of its sweep. -/
theorem pair_mem_candidates {series : Series} {sweep : Sweep} {p : Plan} {c : Choice}
    (h : c ∈ (Walk.over series sweep p).choices) : c.pair ∈ sweep.candidates :=
  (winner?_spec (search_of_mem_choices h).1).1

/-- A pair that is recommended was chosen by some window. -/
theorem exists_choice_of_recommend {cs : List Choice} {p : Pair} (h : recommend cs = .ok p) :
    ∃ c ∈ cs, c.pair = p := by
  obtain ⟨t, ht, rfl⟩ := mem_tallies_of_recommend h
  have hpair : t.pair ∈ (tallies cs).map Tally.pair := List.mem_map_of_mem ht
  rw [map_pair_tallies] at hpair
  exact mem_chosenPairs.1 hpair

/-! ## §3 Outcomes -/

theorem conclude_eq_ok {o : Optimizer} {w : Walk} {outcome : Outcome}
    (h : o.conclude w = .ok outcome) :
    w.choices ≠ [] ∧ recommend w.choices = .ok outcome.selection ∧
      outcome = ⟨w.choices, outcome.selection, o.train, o.test, w.trials.length⟩ := by
  rcases conclude_eq o w with ⟨-, herror⟩ | ⟨hsome, -⟩
  · rw [herror] at h
    cases h
  · obtain ⟨pair, hpair⟩ := recommend_eq_ok hsome
    unfold Optimizer.conclude at h
    rw [if_neg (by simpa using hsome), hpair] at h
    cases h
    exact ⟨hsome, hpair, rfl⟩

/-- Where optimizing succeeds, the outcome has the choices of the run, the pair recommended for them, and
the number of windows. -/
theorem optimize_eq_ok {o : Optimizer} {series : Series} {outcome : Outcome}
    (h : o.optimize series = .ok outcome) :
    ∃ p, Plan.of series.size o.train o.test = .ok p ∧
      run series o.train o.test o.sweep = .ok outcome.choices ∧
      outcome.choices = (Walk.over series o.sweep p).choices ∧ outcome.choices ≠ [] ∧
      recommend outcome.choices = .ok outcome.selection ∧ outcome.windows = p.splits.length := by
  rw [optimize_eq] at h
  cases hsweep : sweepFault? o.sweep with
  | some fault =>
    rw [hsweep] at h
    cases h
  | none =>
    cases hp : Plan.of series.size o.train o.test with
    | error e =>
      rw [hsweep, hp] at h
      cases h
    | ok p =>
      rw [hsweep, hp] at h
      obtain ⟨hsome, hpair, houtcome⟩ := conclude_eq_ok h
      have hchoices : outcome.choices = (Walk.over series o.sweep p).choices := by rw [houtcome]
      have hwindows : outcome.windows = p.splits.length := by
        rw [houtcome]
        exact List.length_map _
      rw [← hchoices] at hsome hpair
      exact ⟨p, rfl, run_eq_ok_iff.2 ⟨hsweep, p, hp, hchoices⟩, hchoices, hsome, hpair, hwindows⟩

/-- How the summary of an outcome begins: with its choices, and the windows without one. -/
theorem summary_eq (o : Outcome) : ∃ rest, o.summary =
    "Walk-Forward Results: " ++ Digits.text o.choices.length ++ " windows (" ++
      Digits.text o.skipped ++ " skipped)\nAvg Train Score: " ++ rest := by
  unfold Outcome.summary
  simp only [String.append_assoc]
  exact ⟨_, rfl⟩

/-- **The parts of an outcome agree.** Its choices are those of the run, and there are some. Its selection
is what is recommended for them: a pair that some window chose, with a period of each side of the sweep,
the fast one below the slow one. Its windows are those of the plan, and the ones without a choice, which
the summary reports as skipped, are those whose search was empty. Each pair has one tally. That of the
selection counts as many windows as the outcome reports for it, at least one; and all tallies together
count every choice once. -/
theorem outcome_consistent {o : Optimizer} {series : Series} {outcome : Outcome}
    (h : o.optimize series = .ok outcome) :
    (run series o.train o.test o.sweep = .ok outcome.choices ∧ outcome.choices ≠ []) ∧
      (recommend outcome.choices = .ok outcome.selection ∧
        (∃ c ∈ outcome.choices, c.pair = outcome.selection) ∧
        outcome.selection.fast ∈ o.sweep.fast ∧ outcome.selection.slow ∈ o.sweep.slow ∧
        outcome.selection.fast < outcome.selection.slow) ∧
      (∃ p, Plan.of series.size o.train o.test = .ok p ∧ outcome.windows = p.splits.length ∧
        outcome.choices.length ≤ outcome.windows ∧
        outcome.skipped = emptySearches series o.sweep p ∧
        ∃ rest, outcome.summary =
          "Walk-Forward Results: " ++ Digits.text outcome.choices.length ++ " windows (" ++
            Digits.text (emptySearches series o.sweep p) ++ " skipped)\nAvg Train Score: " ++ rest) ∧
      (1 ≤ outcome.frequency ∧
        (∃ t ∈ outcome.tallies, t.pair = outcome.selection ∧ t.windows = outcome.frequency) ∧
        (outcome.tallies.map Tally.pair).Nodup) ∧
      (outcome.tallies.map Tally.windows).sum = outcome.choices.length := by
  obtain ⟨p, hp, hrun, hchoices, hsome, hpair, hwindows⟩ := optimize_eq_ok h
  obtain ⟨c, hc, hselection⟩ := exists_choice_of_recommend hpair
  obtain ⟨hfast, hslow, hvalid⟩ := (o.sweep.mem_candidates _).1 (pair_mem_candidates (hchoices ▸ hc))
  have hcount : outcome.choices.length + emptySearches series o.sweep p = outcome.windows := by
    rw [hchoices, hwindows]
    exact length_choices_add_empty series o.sweep p
  have hskipped : outcome.skipped = emptySearches series o.sweep p := by
    unfold Outcome.skipped
    omega
  have hchosen : 1 ≤ outcome.frequency :=
    List.length_pos_of_mem (List.mem_filter.2 ⟨hc, decide_eq_true hselection⟩)
  obtain ⟨t, ht, htpair⟩ := mem_tallies_of_recommend hpair
  have htwindows : t.windows = outcome.frequency := by
    rw [windows_eq_of_mem_tallies ht, htpair]
    rfl
  have hpairs : (outcome.tallies.map Tally.pair).Nodup := by
    rw [Outcome.tallies, map_pair_tallies]
    exact nodup_chosenPairs _
  refine ⟨⟨hrun, hsome⟩, ⟨hpair, ⟨c, hc, hselection⟩, ?_⟩, ⟨p, hp, hwindows, by omega, hskipped, ?_⟩,
    ⟨hchosen, ⟨t, ht, htpair, htwindows⟩, hpairs⟩, sum_windows_tallies outcome.choices⟩
  · rw [← hselection]
    exact ⟨hfast, hslow, hvalid⟩
  · rw [← hskipped]
    exact summary_eq outcome

/-- The outcome over prices that jump up from zero. -/
def jumpOutcome : Outcome :=
  ⟨[⟨0, ⟨1, 3, 3, 4⟩, ⟨1, 2⟩, score [3.0, 1.0] 1 2, score [2.0] 1 2⟩], ⟨1, 2⟩, 2, 1, 2⟩

theorem across_jump : Walk.across jump 2 1 ⟨[1], [2]⟩ =
    .ok ⟨⟨4, 2, 1, by decide, by decide, by decide⟩, [.skipped ⟨0, 2, 2, 3⟩,
      .chosen ⟨1, 3, 3, 4⟩ ⟨1, 2⟩ (score [3.0, 1.0] 1 2) (score [2.0] 1 2)]⟩ := (rfl)

theorem optimize_jump : Optimizer.optimize ⟨2, 1, ⟨[1], [2]⟩⟩ jump = .ok jumpOutcome := by
  unfold Optimizer.optimize
  rw [across_jump]
  rfl

/-- One of two windows is skipped, and the other one's pair is selected and tallied once. -/
theorem outcome_consistent_of_jump :
    Optimizer.optimize ⟨2, 1, ⟨[1], [2]⟩⟩ jump = .ok jumpOutcome ∧
      jumpOutcome.choices.length = 1 ∧ jumpOutcome.skipped = 1 ∧
      (∃ p, Plan.of 4 2 1 = .ok p ∧ jumpOutcome.skipped = emptySearches jump ⟨[1], [2]⟩ p) ∧
      (∃ t ∈ jumpOutcome.tallies, t.pair = ⟨1, 2⟩ ∧ t.windows = 1) := by
  obtain ⟨-, -, ⟨p, hp, -, -, hskipped, -⟩, ⟨-, htally, -⟩, -⟩ := outcome_consistent optimize_jump
  exact ⟨optimize_jump, rfl, rfl, ⟨p, hp, hskipped⟩, htally⟩

end Crossover
