/-
Crossover.Proofs.Walk.Growth — a longer series keeps the choices of a shorter one.

Windows are counted from the start of the series. So the plan of a longer series begins with the windows
of the shorter one, and as far as these go both series hold the same prices. The trials of the longer
series are therefore those of the shorter one and some more (`trialsUpTo_add`, `trialsUpTo_congr`), and as
choices are numbered from the front, the more trials leave the old numbers alone.

  §1 Plans    — the windows that fit a longer series.
  §2 Trials   — trials of windows that lie within the shorter series.
  §3 Choices  — the old choices, and where the new ones lie.
-/
import Crossover.Proofs.Walk.Isolation

namespace Crossover

/-! ## §1 Plans -/

namespace Plan

/-- There are at least as many windows in a series that is at least as long. -/
theorem count_le_count {p q : Plan} (htrain : q.train = p.train) (htest : q.test = p.test)
    (hlength : p.length ≤ q.length) : p.count ≤ q.count := by
  unfold count
  rw [htrain, htest]
  exact Nat.succ_le_succ (Nat.div_le_div_right (by omega))

/-- The first window that is not planned reaches beyond the series. -/
theorem length_lt_of_count_le {p : Plan} {k : Nat} (h : p.count ≤ k) :
    p.length < (windowBounds p.train p.test k).testStop := by
  have hroom : p.length - p.train - p.test < p.count * p.test := by
    rw [count, Nat.mul_comm]
    exact Nat.lt_mul_div_succ _ p.test_pos
  have hk : p.count * p.test ≤ k * p.test := Nat.mul_le_mul_right p.test h
  have := p.fits
  show p.length < k * p.test + p.train + p.test
  omega

end Plan

/-! ## §2 Trials -/

/-- Where a series has been continued, it has the old prices up to its old length. -/
theorem Series.agreeOn_of_append {series longer : Series} {more : List Float}
    (h : longer.closes = series.closes ++ more) {start stop : Nat} (hstop : stop ≤ series.size) :
    longer.AgreeOn series start stop := by
  intro i _ hi
  rw [h, List.getElem?_append_left (Nat.lt_of_lt_of_le hi hstop)]

/-- The trials of more windows are the trials of the first ones and then those of the rest. -/
theorem trialsUpTo_add (series : Series) (train test : Nat) (sweep : Sweep) (count more : Nat) :
    trialsUpTo series train test sweep (count + more) =
      trialsUpTo series train test sweep count ++
        (List.range more).map fun k =>
          Trial.run series sweep (windowBounds train test (count + k)) := by
  simp [trialsUpTo, List.range_add]

theorem trialsUpTo_congr {s t : Series} {train test : Nat} {sweep : Sweep} {count : Nat}
    (h : ∀ k < count, Trial.run s sweep (windowBounds train test k) =
      Trial.run t sweep (windowBounds train test k)) :
    trialsUpTo s train test sweep count = trialsUpTo t train test sweep count :=
  List.map_congr_left fun k hk => h k (List.mem_range.1 hk)

/-- The trials of a plan stay as they are when the series is continued. -/
theorem trialsUpTo_of_append {series longer : Series} {more : List Float}
    (h : longer.closes = series.closes ++ more) {p : Plan} (hp : p.length = series.size)
    (sweep : Sweep) :
    trialsUpTo longer p.train p.test sweep p.count =
      trialsUpTo series p.train p.test sweep p.count := by
  refine trialsUpTo_congr fun k hk => ?_
  obtain ⟨htrain, hnext, htest, hstop⟩ :=
    Plan.bounds_of_mem_splits (Plan.windowBounds_mem_splits hk)
  exact Trial.run_congr (Series.agreeOn_of_append h (by omega))
    (Series.agreeOn_of_append h (by omega)) sweep

/-! ## §3 Choices -/

/-- Each choice is about the window of some trial. -/
theorem exists_chosen_of_mem_choicesFrom {next : Nat} {trials : List Trial} {c : Choice}
    (h : c ∈ choicesFrom next trials) :
    .chosen c.split c.pair c.trainScore c.testScore ∈ trials :=
  (reported_choicesFrom_iff next trials _ _ _ _).1 ⟨c.index, h⟩

/-- The choices over a continued series are the old ones and then those of the windows that are new. -/
theorem choices_over_of_append {series longer : Series} {more : List Float}
    (h : longer.closes = series.closes ++ more) {p q : Plan} (hp : p.length = series.size)
    (htrain : q.train = p.train) (htest : q.test = p.test) {extra : Nat}
    (hextra : q.count = p.count + extra) (sweep : Sweep) :
    ∃ next, (Walk.over longer sweep q).choices =
      (Walk.over series sweep p).choices ++ choicesFrom next ((List.range extra).map fun k =>
        Trial.run longer sweep (windowBounds p.train p.test (p.count + k))) := by
  refine ⟨0 + (choices (trialsUpTo series p.train p.test sweep p.count)).length, ?_⟩
  rw [Walk.choices, Walk.choices, over_trials, over_trials, htrain, htest, hextra, trialsUpTo_add,
    trialsUpTo_of_append h hp, choices, choices, choicesFrom_append]

/-- **More prices only add choices.** When a series on which a run succeeds is continued, the run over the
longer series succeeds too. Its choices are the old ones, unchanged and in front, and then some for
windows that reach into the new prices. -/
theorem run_of_more_prices {series longer : Series} {more : List Float}
    (h : longer.closes = series.closes ++ more) {train test : Nat} {sweep : Sweep}
    {cs : List Choice} (hrun : run series train test sweep = .ok cs) :
    ∃ later, run longer train test sweep = .ok (cs ++ later) ∧
      ∀ c ∈ later, series.size < c.split.testStop := by
  obtain ⟨hsweep, p, hp, rfl⟩ := run_eq_ok_iff.1 hrun
  obtain ⟨hlength, rfl, rfl⟩ := Plan.of_eq_ok hp
  have hsize : series.size ≤ longer.size := by
    unfold Series.size
    rw [h, List.length_append]
    exact Nat.le_add_right _ _
  obtain ⟨q, hq⟩ := Plan.of_resized hp (Nat.le_trans p.fits (hlength.symm ▸ hsize))
  obtain ⟨hqlength, hqtrain, hqtest⟩ := Plan.of_eq_ok hq
  obtain ⟨extra, hextra⟩ := Nat.exists_eq_add_of_le
    (Plan.count_le_count hqtrain hqtest (by omega))
  obtain ⟨next, hnew⟩ := choices_over_of_append h hlength hqtrain hqtest hextra sweep
  refine ⟨_, run_eq_ok_iff.2 ⟨hsweep, q, hq, hnew.symm⟩, fun c hc => ?_⟩
  obtain ⟨k, -, hk⟩ := List.mem_map.1 (exists_chosen_of_mem_choicesFrom hc)
  rw [Trial.split_eq_of_run hk, ← hlength]
  exact Plan.length_lt_of_count_le (Nat.le_add_right p.count k)

theorem run_jump : run jump 2 1 ⟨[1], [2]⟩ =
    .ok [⟨0, ⟨1, 3, 3, 4⟩, ⟨1, 2⟩, score [3.0, 1.0] 1 2, score [2.0] 1 2⟩] := rfl

/-- The jump goes on: the one choice that there was stays, behind a window that is skipped. -/
theorem run_of_more_prices_of_jump :
    jumpOn.closes = jump.closes ++ [4.0] ∧
      ∃ later, run jumpOn 2 1 ⟨[1], [2]⟩ =
        .ok (⟨0, ⟨1, 3, 3, 4⟩, ⟨1, 2⟩, score [3.0, 1.0] 1 2, score [2.0] 1 2⟩ :: later) := by
  have hcloses : jumpOn.closes = jump.closes ++ [4.0] := rfl
  obtain ⟨later, hrun, -⟩ := run_of_more_prices hcloses run_jump
  exact ⟨hcloses, later, hrun⟩

end Crossover
