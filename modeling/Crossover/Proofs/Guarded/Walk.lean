/-
Crossover.Proofs.Guarded.Walk — walking forward with every position looked after.

A walk lays its windows with sums and differences of lengths, cuts the series at their bounds, scores
pairs on the pieces, and counts windows. The definitions of this module do the same with the guards of
`Guarded.Score`. Periods are checked before anything is scored, and lengths before any window is laid, so
that nothing fails on a series with fewer bars than 64 bits can count (`across?_eq`, `run?_eq`).

  §1 Searches — the candidates of a sweep on a list of prices.
  §2 Windows  — the bounds of all windows.
  §3 Trials   — one window after the other, and their numbers.
  §4 Walks    — the checks in front.
-/
import Crossover.Proofs.Guarded.Score
import Crossover.Proofs.Walk.Isolation

namespace Crossover.Guarded

open Text

/-! ## §1 Searches -/

/-- Scores all candidates, and then looks for the best of them. -/
def winner? (sweep : Sweep) (closes : List Float) : Option (Option Scored) := do
  let scores ← sweep.candidates.mapM fun p => score? closes p.fast p.slow
  return (sweep.candidates.zip scores).foldl (fun best entry => improve best ⟨entry.1, entry.2⟩) none

/-- The candidates of a sweep that has been checked have positive periods. -/
theorem pos_of_mem_candidates {sweep : Sweep} {p : Pair} (hsweep : sweepFault? sweep = none)
    (hp : p ∈ sweep.candidates) : 0 < p.fast ∧ 0 < p.slow := by
  obtain ⟨⟨-, hfast⟩, -, hslow⟩ := (sweepFault?_eq_none_iff sweep).1 hsweep
  obtain ⟨hpfast, hpslow, -⟩ := (sweep.mem_candidates p).1 hp
  exact ⟨Nat.pos_of_ne_zero fun h => hfast (h ▸ hpfast), Nat.pos_of_ne_zero fun h => hslow (h ▸ hpslow)⟩

/-- A search among pairs of positive periods scores every candidate. -/
theorem winner?_eq {sweep : Sweep} {closes : List Float} (hsweep : sweepFault? sweep = none)
    (hlength : closes.length ≤ Natural.greatest) :
    winner? sweep closes = some (sweep.winner? closes) := by
  have hscores : (sweep.candidates.mapM fun p => score? closes p.fast p.slow) =
      some (sweep.candidates.map fun p => p.score closes) := by
    refine mapM_eq_some fun p hp => ?_
    obtain ⟨hfast, hslow⟩ := pos_of_mem_candidates hsweep hp
    exact score?_eq hfast hslow hlength
  have hzip : sweep.candidates.zip (sweep.candidates.map fun p => p.score closes) =
      sweep.candidates.map fun p => (p, p.score closes) := by
    rw [List.zip_map_right, List.zip_eq_zipWith]
    simp
  simp only [winner?, hscores, Option.bind_eq_bind, Option.bind_some, hzip, List.foldl_map]
  rfl

/-! ## §2 Windows -/

/-- The positions up to `last`, `step` apart; none if they are no step apart. -/
def starts? (last step : Nat) : Option (List Nat) :=
  if step = 0 then none else some ((List.range (last / step + 1)).map (· * step))

/-- The window that begins at a position. -/
def splitAt? (train test start : Nat) : Option Split := do
  let trainStop ← lengthSum? start train
  let testStop ← lengthSum? trainStop test
  return ⟨start, trainStop, trainStop, testStop⟩

/-- All windows of a series of some length. -/
def splits? (length train test : Nat) : Option (List Split) := do
  let room ← minus? length train
  let last ← minus? room test
  let starts ← starts? last test
  starts.mapM (splitAt? train test)

/-- The windows of a plan are laid without a length out of place. -/
theorem splits?_eq {p : Plan} (hlength : p.length ≤ Natural.greatest) :
    splits? p.length p.train p.test = some p.splits := by
  have hfits := p.fits
  have hstarts : starts? (p.length - p.train - p.test) p.test =
      some ((List.range p.count).map (· * p.test)) := if_neg (Nat.ne_of_gt p.test_pos)
  have hsplits : ((List.range p.count).map (· * p.test)).mapM (splitAt? p.train p.test) =
      some (((List.range p.count).map (· * p.test)).map p.splitAt) := by
    refine mapM_eq_some fun start hstart => ?_
    obtain ⟨k, hk, rfl⟩ := List.mem_map.1 hstart
    have hstop : k * p.test + p.train + p.test ≤ p.length :=
      Plan.testStop_le_length (Plan.windowBounds_mem_splits (List.mem_range.1 hk))
    rw [splitAt?, lengthSum?_eq (by omega)]
    simp only [Option.bind_eq_bind, Option.bind_some,
      lengthSum?_eq (show k * p.test + p.train + p.test ≤ Natural.greatest by omega)]
    rfl
  rw [splits?, minus?_eq (by omega)]
  simp only [Option.bind_eq_bind, Option.bind_some,
    minus?_eq (show p.test ≤ p.length - p.train by omega), hstarts, hsplits, List.map_map]
  rfl

example : splits? 3 2 2 = none := rfl

example : splits? 4 2 0 = none := rfl

/-- There are no more windows than bars. -/
theorem length_splits_le (p : Plan) : p.splits.length ≤ p.length := by
  have hdiv := Nat.div_le_self (p.length - p.train - p.test) p.test
  have htrain := p.train_pos
  have hfits := p.fits
  rw [Plan.length_splits, Plan.count]
  omega

/-! ## §3 Trials -/

def trial? (series : Series) (sweep : Sweep) (split : Split) : Option Trial := do
  let train ← series.slice? split.trainStart split.trainStop
  match ← winner? sweep train with
  | none => return .skipped split
  | some best =>
    let test ← series.slice? split.testStart split.testStop
    let testScore ← score? test best.pair.fast best.pair.slow
    return .chosen split best.pair best.score testScore

/-- The trials of some windows, which are counted from one as notices show them. -/
def trials? (series : Series) (sweep : Sweep) (splits : List Split) : Option (List Trial) :=
  splits.zipIdx.mapM fun entry => do
    let trial ← trial? series sweep entry.1
    let _ ← lengthSum? entry.2 1
    return trial

/-- The choices among some trials, numbered from `next` on. -/
def choicesFrom? (next : Nat) : List Trial → Option (List Choice)
  | [] => some []
  | .skipped _ :: rest => choicesFrom? next rest
  | .chosen split pair trainScore testScore :: rest => do
    let after ← lengthSum? next 1
    let others ← choicesFrom? after rest
    return ⟨next, split, pair, trainScore, testScore⟩ :: others

theorem length_slice_le (series : Series) (start stop : Nat) :
    (series.slice start stop).length ≤ series.size := by
  rw [Series.slice, List.length_take, List.length_drop, Series.size]
  omega

/-- The trial of a window within the series cuts it within its bounds. -/
theorem trial?_eq {series : Series} {sweep : Sweep} {p : Plan} {split : Split}
    (hsize : series.size ≤ Natural.greatest) (hsweep : sweepFault? sweep = none)
    (hlength : p.length = series.size) (hsplit : split ∈ p.splits) :
    trial? series sweep split = some (Trial.run series sweep split) := by
  obtain ⟨htrainOrder, hnext, htestOrder, hstop⟩ := Plan.bounds_of_mem_splits hsplit
  have htrain := Series.slice?_eq_some htrainOrder (show split.trainStop ≤ series.size by omega)
  have htest := Series.slice?_eq_some htestOrder (hlength ▸ hstop)
  have hslice : ∀ start stop, (series.slice start stop).length ≤ Natural.greatest :=
    fun start stop => Nat.le_trans (length_slice_le series start stop) hsize
  have hwinner := winner?_eq hsweep (hslice split.trainStart split.trainStop)
  simp only [trial?, htrain, Option.bind_eq_bind, Option.bind_some, hwinner, Trial.run]
  cases hbest : sweep.winner? (series.slice split.trainStart split.trainStop) with
  | none => rfl
  | some best =>
    -- The pair that was found is a candidate, so that its periods are positive, too.
    obtain ⟨hfast, hslow⟩ := pos_of_mem_candidates hsweep (winner?_spec hbest).1
    have hscore := score?_eq hfast hslow (hslice split.testStart split.testStop)
    simp only [htest, Option.bind_some, hscore]
    rfl

theorem trials?_eq {series : Series} {sweep : Sweep} {p : Plan} (hsize : series.size ≤ Natural.greatest)
    (hsweep : sweepFault? sweep = none) (hlength : p.length = series.size) :
    trials? series sweep p.splits = some (p.splits.map (Trial.run series sweep)) := by
  have hcount := length_splits_le p
  have htrials : trials? series sweep p.splits =
      some (p.splits.zipIdx.map fun entry => Trial.run series sweep entry.1) := by
    refine mapM_eq_some fun entry hentry => ?_
    have hsplit : entry.1 ∈ p.splits := List.fst_mem_of_mem_zipIdx hentry
    have hplace : entry.2 < p.splits.length := List.snd_lt_of_mem_zipIdx hentry
    rw [trial?_eq hsize hsweep hlength hsplit, lengthSum?_eq (by omega)]
    rfl
  have hfirst : p.splits.zipIdx.map Prod.fst = p.splits := List.zipIdx_map_fst 0 p.splits
  calc trials? series sweep p.splits
      = some ((p.splits.zipIdx.map Prod.fst).map (Trial.run series sweep)) := by
        rw [htrials, List.map_map]
        rfl
    _ = some (p.splits.map (Trial.run series sweep)) := by rw [hfirst]

/-- Numbers that 64 bits hold go on being held. -/
theorem choicesFrom?_eq {next : Nat} {trials : List Trial}
    (h : next + trials.length ≤ Natural.greatest) :
    choicesFrom? next trials = some (choicesFrom next trials) := by
  induction trials generalizing next with
  | nil => rfl
  | cons t rest ih =>
    rw [List.length_cons] at h
    cases t with
    | skipped split => exact ih (by omega)
    | chosen split pair trainScore testScore =>
      rw [choicesFrom?, lengthSum?_eq (by omega)]
      simp only [Option.bind_eq_bind, Option.bind_some, ih (show next + 1 + rest.length ≤ _ by omega)]
      rfl

/-! ## §4 Walks -/

def across? (series : Series) (train test : Nat) (sweep : Sweep) : Option (Except RunError Walk) :=
  match sweep.check with
  | .error fault => some (.error fault)
  | .ok () =>
    match Plan.of series.size train test with
    | .error fault => some (.error fault)
    | .ok p => do
      let splits ← splits? series.size train test
      let trials ← trials? series sweep splits
      return .ok ⟨p, trials⟩

def run? (series : Series) (train test : Nat) (sweep : Sweep) :
    Option (Except RunError (List Choice)) := do
  match ← across? series train test sweep with
  | .error fault => return .error fault
  | .ok walk =>
    let choices ← choicesFrom? 0 walk.trials
    return .ok choices

/-- A walk is there, whatever its lengths and its periods are. -/
theorem across?_eq {series : Series} (hsize : series.size ≤ Natural.greatest) (train test : Nat)
    (sweep : Sweep) : across? series train test sweep = some (Walk.across series train test sweep) := by
  rw [across?, across_eq, check_eq]
  cases hfault : sweepFault? sweep with
  | some fault => rfl
  | none =>
    cases hp : Plan.of series.size train test with
    | error fault => rfl
    | ok p =>
      obtain ⟨hlength, htrain, htest⟩ := Plan.of_eq_ok hp
      have hsplits : splits? series.size train test = some p.splits := by
        rw [← hlength, ← htrain, ← htest]
        exact splits?_eq (hlength ▸ hsize)
      simp only [hsplits, Option.bind_eq_bind, Option.bind_some, trials?_eq hsize hfault hlength]
      rfl

/-- A walk has no more trials than its series has bars. -/
theorem length_trials_le {series : Series} {train test : Nat} {sweep : Sweep} {w : Walk}
    (h : Walk.across series train test sweep = .ok w) : w.trials.length ≤ series.size := by
  rw [across_eq] at h
  cases hfault : sweepFault? sweep with
  | some fault =>
    rw [hfault] at h
    cases h
  | none =>
    rw [hfault] at h
    cases hp : Plan.of series.size train test with
    | error fault =>
      rw [hp] at h
      cases h
    | ok p =>
      rw [hp] at h
      cases h
      have hcount := length_splits_le p
      rw [(Plan.of_eq_ok hp).1] at hcount
      rw [Walk.over, List.length_map]
      exact hcount

theorem run?_eq {series : Series} (hsize : series.size ≤ Natural.greatest) (train test : Nat)
    (sweep : Sweep) : run? series train test sweep = some (run series train test sweep) := by
  rw [run?, across?_eq hsize, run]
  cases hwalk : Walk.across series train test sweep with
  | error fault => rfl
  | ok w =>
    have hcount : 0 + w.trials.length ≤ Natural.greatest := by
      have := length_trials_le hwalk
      omega
    simp only [Option.bind_eq_bind, Option.bind_some, choicesFrom?_eq hcount]
    rfl

end Crossover.Guarded
