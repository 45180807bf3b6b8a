/-
Crossover.Proofs.Walk.Reference — a run, written down window by window.

The `k`-th window of a run trains on `trainPrices k` and is tested on `testPrices k`, two stretches of
the closing prices given by `k` alone. `referenceChoice? k` is what such a window leaves behind, and
`run_eq_reference` says that a run is exactly the list of these, for all windows that fit.

A window is numbered by the choices before it, which the program counts while it goes. The count is
the invariant of `choices_trialsUpTo`: after `k` windows there are `chosenBefore k` choices.
-/
import Crossover.Proofs.Sweep.Search
import Crossover.Proofs.Walk.Checks

namespace Crossover

/-! ## §1 Numbering -/

/-- Trials behind others are numbered on from where those stopped. -/
theorem choicesFrom_append (next : Nat) (front back : List Trial) :
    choicesFrom next (front ++ back) =
      choicesFrom next front ++ choicesFrom (next + (choicesFrom next front).length) back := by
  induction front generalizing next with
  | nil => rfl
  | cons t rest ih =>
    cases t with
    | skipped s => exact ih next
    | chosen s p a b =>
      rw [List.cons_append, choicesFrom, ih (next + 1), choicesFrom]
      simp only [List.length_cons, List.cons_append]
      rw [show next + 1 + (choicesFrom (next + 1) rest).length =
        next + ((choicesFrom (next + 1) rest).length + 1) by omega]

/-- Choices are numbered without a gap. -/
theorem map_index_choicesFrom (next : Nat) (trials : List Trial) :
    (choicesFrom next trials).map Choice.index =
      List.range' next (choicesFrom next trials).length := by
  induction trials generalizing next with
  | nil => rfl
  | cons t rest ih =>
    cases t with
    | skipped s => exact ih next
    | chosen s p a b =>
      rw [choicesFrom, List.map_cons, List.length_cons, List.range'_succ, ih]

/-! ## §2 Windows -/

/-- How many windows a series of some length has room for. -/
def windowCount (length train test : Nat) : Nat :=
  (length - train - test) / test + 1

/-- The bounds of the `k`-th window. -/
def windowBounds (train test k : Nat) : Split :=
  ⟨k * test, k * test + train, k * test + train, k * test + train + test⟩

section Windows

variable (series : Series) (train test : Nat) (sweep : Sweep)

/-- The prices on which the `k`-th window trains. -/
def trainPrices (k : Nat) : List Float :=
  (series.closes.drop (k * test)).take train

/-- The prices on which the `k`-th window is tested. -/
def testPrices (k : Nat) : List Float :=
  (series.closes.drop (k * test + train)).take test

/-- How many of the windows before the `k`-th find a pair. -/
def chosenBefore (k : Nat) : Nat :=
  (List.range k).countP fun j => (sweep.winner? (trainPrices series train test j)).isSome

/-- What the `k`-th window leaves behind: nothing unless its search finds a pair. -/
def referenceChoice? (k : Nat) : Option Choice :=
  (sweep.winner? (trainPrices series train test k)).map fun best =>
    { index := chosenBefore series train test sweep k
      split := windowBounds train test k
      pair := best.pair
      trainScore := score (trainPrices series train test k) best.pair.fast best.pair.slow
      testScore := score (testPrices series train test k) best.pair.fast best.pair.slow }

/-- The trials of the first `count` windows. -/
def trialsUpTo (count : Nat) : List Trial :=
  (List.range count).map fun k => Trial.run series sweep (windowBounds train test k)

theorem trialsUpTo_succ (count : Nat) :
    trialsUpTo series train test sweep (count + 1) =
      trialsUpTo series train test sweep count ++
        [Trial.run series sweep (windowBounds train test count)] := by
  simp [trialsUpTo, List.range_succ]

theorem chosenBefore_succ (k : Nat) :
    chosenBefore series train test sweep (k + 1) =
      chosenBefore series train test sweep k +
        (referenceChoice? series train test sweep k).toList.length := by
  unfold chosenBefore referenceChoice?
  rw [List.range_succ, List.countP_append]
  cases hbest : sweep.winner? (trainPrices series train test k) with
  | none => simp [hbest]
  | some best => simp [hbest]

theorem slice_train (k : Nat) :
    series.slice (k * test) (k * test + train) = trainPrices series train test k := by
  rw [Series.slice, Nat.add_sub_cancel_left, trainPrices]

theorem slice_test (k : Nat) :
    series.slice (k * test + train) (k * test + train + test) = testPrices series train test k := by
  rw [Series.slice, Nat.add_sub_cancel_left, testPrices]

/-- The trial of a window whose number is known is its reference choice, if it has one. -/
theorem choicesFrom_trial (k : Nat) :
    choicesFrom (chosenBefore series train test sweep k)
        [Trial.run series sweep (windowBounds train test k)] =
      (referenceChoice? series train test sweep k).toList := by
  unfold Trial.run referenceChoice? windowBounds
  simp only [slice_train, slice_test]
  cases hbest : sweep.winner? (trainPrices series train test k) with
  | none => rfl
  | some best =>
    have hscore : best.score = score (trainPrices series train test k) best.pair.fast best.pair.slow :=
      (winner?_spec hbest).2
    simp only [Option.map_some, Option.toList_some, choicesFrom, Pair.score, hscore]

/-- After `count` windows the choices are the reference choices so far, and as many as are counted. -/
theorem choices_trialsUpTo (count : Nat) :
    choices (trialsUpTo series train test sweep count) =
        (List.range count).filterMap (referenceChoice? series train test sweep) ∧
      (choices (trialsUpTo series train test sweep count)).length =
        chosenBefore series train test sweep count := by
  induction count with
  | zero => exact ⟨rfl, rfl⟩
  | succ count ih =>
    obtain ⟨hchoices, hlength⟩ := ih
    have hnext : choices (trialsUpTo series train test sweep (count + 1)) =
        choices (trialsUpTo series train test sweep count) ++
          (referenceChoice? series train test sweep count).toList := by
      rw [trialsUpTo_succ, choices, choicesFrom_append, ← choices, Nat.zero_add, hlength,
        choicesFrom_trial]
    constructor
    · rw [hnext, hchoices, List.range_succ, List.filterMap_append]
      cases hc : referenceChoice? series train test sweep count <;> simp [hc]
    · rw [hnext, List.length_append, hlength, chosenBefore_succ]

end Windows

/-! ## §3 Runs -/

/-- The trials of a plan are those of its windows, counted from the start of the series. -/
theorem over_trials (series : Series) (sweep : Sweep) (p : Plan) :
    (Walk.over series sweep p).trials = trialsUpTo series p.train p.test sweep p.count := by
  simp [Walk.over, Plan.splits, trialsUpTo, Plan.splitAt, windowBounds]

/-- The choices of a plan are what its windows leave behind. -/
theorem choices_over (series : Series) (sweep : Sweep) (p : Plan) :
    (Walk.over series sweep p).choices =
      (List.range p.count).filterMap (referenceChoice? series p.train p.test sweep) := by
  rw [Walk.choices, over_trials]
  exact (choices_trialsUpTo series p.train p.test sweep p.count).1

theorem Plan.windowBounds_mem_splits {p : Plan} {k : Nat} (h : k < p.count) :
    windowBounds p.train p.test k ∈ p.splits :=
  List.mem_map.2 ⟨k, List.mem_range.2 h, rfl⟩

/-- Both stretches of every window of a plan are there in full. -/
theorem length_prices {series : Series} {p : Plan} (h : p.length = series.size) {k : Nat}
    (hk : k < p.count) :
    (trainPrices series p.train p.test k).length = p.train ∧
      (testPrices series p.train p.test k).length = p.test := by
  have hstop : k * p.test + p.train + p.test ≤ p.length :=
    Plan.testStop_le_length (Plan.windowBounds_mem_splits hk)
  rw [h, Series.size] at hstop
  constructor
  · rw [trainPrices, List.length_take, List.length_drop]
    omega
  · rw [testPrices, List.length_take, List.length_drop]
    omega

/-- **A run is its reference.** The choices of a run are exactly what its windows leave behind, in
their order; every stretch that is looked at has its full length, the search reports the score of the
pair that it reports, and the choices are numbered from zero without a gap. -/
theorem run_eq_reference {series : Series} {train test : Nat} {sweep : Sweep} {cs : List Choice}
    (h : run series train test sweep = .ok cs) :
    cs = (List.range (windowCount series.size train test)).filterMap
        (referenceChoice? series train test sweep) ∧
      (∀ k < windowCount series.size train test,
        (trainPrices series train test k).length = train ∧
          (testPrices series train test k).length = test) ∧
      (∀ k < windowCount series.size train test, ∀ best,
        sweep.winner? (trainPrices series train test k) = some best →
          best.score = score (trainPrices series train test k) best.pair.fast best.pair.slow) ∧
      cs.map Choice.index = List.range cs.length := by
  obtain ⟨p, hp, rfl⟩ := run_eq_ok h
  obtain ⟨hlength, rfl, rfl⟩ := Plan.of_eq_ok hp
  have hcount : windowCount series.size p.train p.test = p.count := by
    rw [← hlength, windowCount, Plan.count]
  rw [hcount]
  refine ⟨?_, fun k hk => length_prices hlength hk, fun k _ best hbest => (winner?_spec hbest).2, ?_⟩
  · rw [Walk.choices, over_trials]
    exact (choices_trialsUpTo series p.train p.test sweep p.count).1
  · rw [Walk.choices, choices, map_index_choicesFrom, List.range_eq_range']

theorem untimed_length (closes : List Float) :
    ∀ ts ∈ (none : Option (List Instant)), ts.length = closes.length := nofun

theorem untimed_pairwise : ∀ ts ∈ (none : Option (List Instant)), ts.Pairwise Instant.Before := nofun

/-- The series of some prices without times. -/
def Series.untimed (closes : List Float) (h : closes ≠ []) : Series :=
  ⟨closes, none, h, untimed_length closes, untimed_pairwise⟩

/-- Prices that jump up from zero. -/
def jumpPrices : List Float := [0.0, 3.0, 1.0, 2.0]

theorem jumpPrices_ne_nil : jumpPrices ≠ [] := List.cons_ne_nil _ _

/-- The series of the prices that jump up from zero. -/
def jump : Series := Series.untimed jumpPrices jumpPrices_ne_nil

/-- Of two windows the first trains on the jump and is skipped; the second gets the number zero. -/
theorem run_reference_of_jump :
    run jump 2 1 ⟨[1], [2]⟩ =
        .ok [⟨0, ⟨1, 3, 3, 4⟩, ⟨1, 2⟩, score [3.0, 1.0] 1 2, score [2.0] 1 2⟩] ∧
      [⟨0, ⟨1, 3, 3, 4⟩, ⟨1, 2⟩, score [3.0, 1.0] 1 2, score [2.0] 1 2⟩] =
        (List.range (windowCount 4 2 1)).filterMap (referenceChoice? jump 2 1 ⟨[1], [2]⟩) :=
  ⟨rfl, (@run_eq_reference jump 2 1 ⟨[1], [2]⟩ _ rfl).1⟩

end Crossover
