/-
Crossover.Proofs.Walk.Tiling — the windows of a series, and what their test stretches cover.

The windows of a plan are counted before they are laid (`Plan.count`), and laid by their numbers. Stepping
through the positions at which one can begin, from the first to the last that leaves room, comes to the same
windows, with no sum and no difference of lengths out of place on the way (`Guarded.generate?_eq`).

The test stretches lie one behind the other (`Tiles`). So a position is in one of them if it is between the ends
of the row, and in none otherwise (`Tiles.countP_isTestedAt`), and behind the row there is not enough room for
another test stretch.

  §1 Stepping  — the positions of a range, one after the other.
  §2 Counting  — lengths that are looked after.
  §3 Tiles     — stretches one behind the other.
  §4 Windows   — those of three lengths.
-/
import Crossover.Proofs.Guarded.Walk
import Crossover.Proofs.Walk.Growth

namespace Crossover

open Text

namespace Guarded

/-! ## §1 Stepping -/

theorem eq_of_lengthSum?_eq_some {a b c : Nat} (h : lengthSum? a b = some c) : c = a + b := by
  unfold lengthSum? at h
  split at h
  · exact (Option.some.inj h).symm
  · cases h

theorem lt_of_lengthSum?_eq_none {a b : Nat} (h : lengthSum? a b = none) : Natural.greatest < a + b := by
  unfold lengthSum? at h
  split at h
  · cases h
  · omega

/-- The positions of a range from `start` on, a step apart. The range is over behind `last`, and also where
64 bits do not hold the next position. -/
def positionsFrom (last step : Nat) (hstep : 0 < step) (start : Nat) : List Nat :=
  if start ≤ last then
    match _hnext : lengthSum? start step with
    | some next => start :: positionsFrom last step hstep next
    | none => [start]
  else []
termination_by last + 1 - start
decreasing_by
  have := eq_of_lengthSum?_eq_some _hnext
  omega

/-- The positions up to `last`, a step apart from the first on; none if they are no step apart. -/
def positions? (last step : Nat) : Option (List Nat) :=
  if h : 0 < step then some (positionsFrom last step h 0) else none

/-- All windows of a series of some length, from one position at which a window can begin to the next. -/
def generate? (length train test : Nat) : Option (List Split) := do
  let room ← minus? length train
  let last ← minus? room test
  let starts ← positions? last test
  starts.mapM (splitAt? train test)

/-- As many positions are gone through as steps fit. -/
theorem positionsFrom_eq {last step : Nat} (hstep : 0 < step) (hlast : last ≤ Natural.greatest)
    (start : Nat) : positionsFrom last step hstep start =
      (List.range ((last + step - start) / step)).map fun k => start + k * step := by
  fun_induction positionsFrom last step hstep start with
  | case1 start hstart next hnext ih =>
    obtain rfl : next = start + step := eq_of_lengthSum?_eq_some hnext
    have hcount : (last + step - start) / step = (last + step - (start + step)) / step + 1 := by
      rw [show last + step - start = last + step - (start + step) + step by omega,
        Nat.add_div_right _ hstep]
    rw [ih, hcount, List.range_succ_eq_map, List.map_cons, List.map_map]
    simp [Function.comp_def, Nat.succ_mul, Nat.add_assoc, Nat.add_comm step]
  | case2 start hstart hnext =>
    have hlarge := lt_of_lengthSum?_eq_none hnext
    have hcount : (last + step - start) / step = 1 := by
      rw [show last + step - start = last - start + step by omega, Nat.add_div_right _ hstep,
        Nat.div_eq_of_lt (by omega)]
    simp [hcount]
  | case3 start hstart =>
    have hcount : (last + step - start) / step = 0 := Nat.div_eq_of_lt (by omega)
    simp [hcount]

/-- Going through the positions comes to the windows that are laid by their numbers. -/
theorem generate?_eq {p : Plan} (hlength : p.length ≤ Natural.greatest) :
    generate? p.length p.train p.test = some p.splits := by
  have hfits := p.fits
  have hpositions : positions? (p.length - p.train - p.test) p.test =
      starts? (p.length - p.train - p.test) p.test := by
    have hlast : p.length - p.train - p.test ≤ Natural.greatest := by omega
    simp [positions?, starts?, p.test_pos, Nat.ne_of_gt p.test_pos, positionsFrom_eq p.test_pos hlast]
  rw [← splits?_eq hlength, generate?, splits?, minus?_eq (by omega)]
  simp only [Option.bind_eq_bind, Option.bind_some,
    minus?_eq (show p.test ≤ p.length - p.train by omega), hpositions]

/-! ## §2 Counting -/

/-- The number of windows of a series of some length. -/
def windowCount? (length train test : Nat) : Option Nat := do
  let room ← minus? length train
  let last ← minus? room test
  if test = 0 then none else lengthSum? (last / test) 1

/-- Windows are counted without a length out of place. -/
theorem windowCount?_eq {p : Plan} (hlength : p.length ≤ Natural.greatest) :
    windowCount? p.length p.train p.test = some p.count := by
  have hfits := p.fits
  have htest := p.test_pos
  have hcount : (p.length - p.train - p.test) / p.test ≤ p.length - p.train - p.test :=
    Nat.div_le_self _ _
  rw [windowCount?, minus?_eq (by omega)]
  simp only [Option.bind_eq_bind, Option.bind_some, minus?_eq (show p.test ≤ p.length - p.train by omega)]
  rw [if_neg (Nat.ne_of_gt htest), lengthSum?_eq (by omega), Plan.count]

end Guarded

/-! ## §3 Tiles -/

/-- Whether a window tests on the bar at a position. -/
def Split.isTestedAt (i : Nat) (b : Split) : Bool :=
  b.testStart ≤ i ∧ i < b.testStop

/-- The test stretches of some windows lie one behind the other, from `start` up to and without `stop`. -/
inductive Tiles : Nat → List Split → Nat → Prop where
  | nil (start : Nat) : Tiles start [] start
  | cons {b : Split} {rest : List Split} {stop : Nat} (hb : b.testStart < b.testStop)
      (hrest : Tiles b.testStop rest stop) : Tiles b.testStart (b :: rest) stop

namespace Tiles

variable {start stop : Nat} {splits : List Split}

theorem le (h : Tiles start splits stop) : start ≤ stop := by
  induction h with
  | nil start => exact Nat.le_refl start
  | cons hb hrest ih => omega

/-- One more window goes behind the others. -/
theorem concat (h : Tiles start splits stop) {b : Split} (hstart : b.testStart = stop)
    (hb : b.testStart < b.testStop) : Tiles start (splits ++ [b]) b.testStop := by
  induction h with
  | nil start =>
    subst hstart
    exact cons hb (nil b.testStop)
  | cons hfirst hrest ih => exact cons hfirst (ih hstart)

/-- A position between the ends of the row is tested on by one window, and any other position by none. -/
theorem countP_isTestedAt (h : Tiles start splits stop) (i : Nat) :
    splits.countP (Split.isTestedAt i) = if start ≤ i ∧ i < stop then 1 else 0 := by
  induction h with
  | nil start =>
    have hnone : ¬ (start ≤ i ∧ i < start) := by omega
    simp [hnone]
  | @cons b rest stop hb hrest ih =>
    have hle := hrest.le
    rw [List.countP_cons, ih]
    by_cases hbefore : i < b.testStop
    · have hrestNone : ¬ (b.testStop ≤ i ∧ i < stop) := by omega
      by_cases hstart : b.testStart ≤ i
      · have hin : i < stop := by omega
        simp [Split.isTestedAt, hstart, hbefore, hin]
      · simp [Split.isTestedAt, hstart, hrestNone]
    · have hstart : b.testStart ≤ i := by omega
      have hstop : b.testStop ≤ i := by omega
      simp [Split.isTestedAt, hbefore, hstart, hstop]

end Tiles

/-! ## §4 Windows -/

theorem Plan.splits_eq (p : Plan) :
    p.splits = (List.range p.count).map (windowBounds p.train p.test) := rfl

/-- The test stretches of the first windows lie one behind the other. -/
theorem tiles_windowBounds {train test : Nat} (htest : 0 < test) (count : Nat) :
    Tiles train ((List.range count).map (windowBounds train test)) (train + count * test) := by
  induction count with
  | zero =>
    rw [Nat.zero_mul]
    exact Tiles.nil train
  | succ count ih =>
    have hnext := ih.concat (b := windowBounds train test count) (Nat.add_comm _ _)
      (Nat.lt_add_of_pos_right htest)
    rw [List.range_succ, List.map_append]
    have hstop : (windowBounds train test count).testStop = train + (count + 1) * test := by
      simp only [windowBounds, Nat.succ_mul]
      omega
    rwa [hstop] at hnext

theorem Plan.tiles_splits (p : Plan) : Tiles p.train p.splits (p.train + p.count * p.test) := by
  rw [p.splits_eq]
  exact tiles_windowBounds p.test_pos p.count

/-- What windows of a series are to be: as many as the lengths leave room for, the `k`-th one beginning `k` test
stretches after the start. Their test stretches are one behind the other, and take up every position
between the end of the first training stretch and the end of the last window once. What is left behind is
shorter than a test stretch. -/
structure Tiling (length train test : Nat) (splits : List Split) : Prop where
  count : splits.length = (length - train - test) / test + 1
  window : ∀ k < splits.length,
    splits[k]? = some ⟨k * test, k * test + train, k * test + train, k * test + train + test⟩
  order : ∀ b ∈ splits, b.trainStart < b.trainStop ∧ b.trainStop = b.testStart ∧
    b.testStart < b.testStop ∧ b.testStop ≤ length
  row : Tiles train splits (train + splits.length * test)
  tested : ∀ i, splits.countP (Split.isTestedAt i) =
    if train ≤ i ∧ i < train + splits.length * test then 1 else 0
  within : train + splits.length * test ≤ length
  rest : length < train + splits.length * test + test

/-- The last window of a plan ends where its test stretches do. -/
theorem Plan.testStretches_le_length (p : Plan) : p.train + p.count * p.test ≤ p.length := by
  obtain ⟨last, hlast⟩ : ∃ last, p.count = last + 1 := ⟨_, rfl⟩
  have hstop : (windowBounds p.train p.test last).testStop ≤ p.length :=
    Plan.testStop_le_length (Plan.windowBounds_mem_splits (by omega))
  simp only [windowBounds] at hstop
  rw [hlast, Nat.succ_mul]
  omega

/-- The windows of a plan are as they are to be. -/
theorem Plan.tiling (p : Plan) : Tiling p.length p.train p.test p.splits where
  count := p.length_splits
  window := by
    intro k hk
    rw [p.length_splits] at hk
    simp [p.splits_eq, windowBounds, hk]
  order := by
    intro b hb
    obtain ⟨htrain, hnext, htest, hstop⟩ := Plan.stretches_of_mem_splits hb
    exact ⟨htrain, hnext.symm, htest, hstop⟩
  row := by
    rw [p.length_splits]
    exact p.tiles_splits
  tested := by
    intro i
    rw [p.length_splits]
    exact p.tiles_splits.countP_isTestedAt i
  within := by
    rw [p.length_splits]
    exact p.testStretches_le_length
  rest := by
    have hnext : p.length < (windowBounds p.train p.test p.count).testStop :=
      Plan.length_lt_of_count_le (Nat.le_refl p.count)
    simp only [windowBounds] at hnext
    rw [p.length_splits]
    omega

/-- **Windows tile a series.** For lengths that 64 bits hold, there are no windows exactly if a stretch is
empty or both stretches do not fit into the series. Otherwise the windows are counted and laid without a
sum or a difference of lengths out of place, and there are as many as counted. They are as they are to be: the
test stretches lie one behind the other, and no further window fits. -/
theorem windows_tile_series {length : Nat} (hlength : length ≤ Natural.greatest) (train test : Nat) :
    (∀ e, Plan.of length train test = .error e ↔
      e = .tooShort length train test ∧ (train = 0 ∨ test = 0 ∨ length < train + test)) ∧
    (0 < train → 0 < test → train + test ≤ length →
      ∃ p, Plan.of length train test = .ok p ∧
        Guarded.windowCount? length train test = some p.count ∧ p.splits.length = p.count ∧
        Guarded.generate? length train test = some p.splits ∧
        Tiling length train test p.splits) := by
  constructor
  · intro e
    rw [Plan.of_eq_error_iff, stretchesFit_iff hlength]
    have hfails : ¬ (0 < train ∧ 0 < test ∧ train + test ≤ length) ↔
        train = 0 ∨ test = 0 ∨ length < train + test := by omega
    rw [hfails]
  · intro htrain htest hfits
    have hplan : 0 < train ∧ 0 < test ∧ stretchesFit length train test = true :=
      ⟨htrain, htest, (stretchesFit_iff hlength train test).2 hfits⟩
    obtain ⟨p, hp⟩ : ∃ p, Plan.of length train test = .ok p := ⟨_, dif_pos hplan⟩
    obtain ⟨rfl, rfl, rfl⟩ := Plan.of_eq_ok hp
    exact ⟨p, hp, Guarded.windowCount?_eq hlength, p.length_splits, Guarded.generate?_eq hlength, p.tiling⟩

/-- Three windows of five and three bars, with two bars left of sixteen; and lengths whose sum 64 bits do not
hold. -/
theorem windows_tile_series_of_sixteen :
    (∃ p, Plan.of 16 5 3 = .ok p ∧ p.splits.length = 3 ∧ Tiling 16 5 3 p.splits) ∧
      Plan.of 16 Natural.greatest 1 = .error (.tooShort 16 Natural.greatest 1) := by
  have hlength : 16 ≤ Natural.greatest := by decide
  obtain ⟨p, hp, -, -, -, htiling⟩ :=
    (windows_tile_series hlength 5 3).2 (by decide) (by decide) (by decide)
  refine ⟨⟨p, hp, htiling.count, htiling⟩, ?_⟩
  exact ((windows_tile_series hlength Natural.greatest 1).1 _).2 ⟨rfl, by decide⟩

end Crossover
