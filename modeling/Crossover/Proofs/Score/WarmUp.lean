/-
Crossover.Proofs.Score.WarmUp — what the rule does before its slow average is there.

A slow average takes as many bars as its period, and its verdict counts for the bar after, so that over
the first `slow` bars of a list the rule is flat once and then short, whatever the prices are. Its totals
over these bars are `shortTotals`, which know of no period. A list that is no longer than the slow period
has no other bars: all valid pairs of such periods have one score there, and a search among them finds the
first one or nothing.

  §1 Holding  — the exposure over the first bars.
  §2 Totals   — the totals over the first bars, and the score of a short list.
  §3 Searches — candidates that all have the same score.
  §4 Runs     — windows that are no longer than the slow periods.
-/
import Crossover.Proofs.Score.Places
import Crossover.Proofs.Sweep.Best
import Crossover.Proofs.Walk.Isolation

namespace Crossover

/-! ## §1 Holding -/

section Holding

variable {closes : List Float} {fast slow : Nat}

/-- Until the slow average is there, and one bar longer, the rule is short. -/
theorem getElem?_held_of_lt_slow (fast : Nat) {i : Nat} (hpos : 0 < i) (hslow : i < slow)
    (h : i < closes.length) : (Exposure.held closes fast slow)[i]? = some .short := by
  cases i with
  | zero => simp at hpos
  | succ i =>
    rw [Exposure.getElem?_held_succ fast slow h, Indicator.averageAt_of_lt hslow]
    simp

/-- What a rule holds that is short after the first bar, whatever the prices are. -/
def heldShort (bars : Nat) : List Exposure :=
  Indicator.delay .flat (List.replicate bars .short)

theorem length_heldShort (bars : Nat) : (heldShort bars).length = bars := by
  simp [heldShort, Indicator.length_delay]

theorem getElem?_heldShort_zero {bars : Nat} (h : 0 < bars) : (heldShort bars)[0]? = some .flat :=
  Indicator.getElem?_delay_zero Exposure.flat (by simpa using h)

theorem getElem?_heldShort_succ {bars i : Nat} (h : i + 1 < bars) :
    (heldShort bars)[i + 1]? = some .short := by
  have hi : i < bars := by omega
  have hdelayed := Indicator.getElem?_delay_succ Exposure.flat
    (show i + 1 < (List.replicate bars Exposure.short).length by simpa using h)
  rw [heldShort, hdelayed]
  simp [hi]

/-- Over the first `slow` bars a rule with a slow period holds nothing else. -/
theorem take_held (closes : List Float) (fast slow : Nat) :
    (Exposure.held closes fast slow).take slow = (heldShort closes.length).take slow := by
  refine take_eq_of_agree fun i hi => ?_
  by_cases hlength : i < closes.length
  · cases i with
    | zero => rw [Exposure.getElem?_held_zero fast slow hlength, getElem?_heldShort_zero hlength]
    | succ i =>
      rw [getElem?_held_of_lt_slow fast (Nat.succ_pos i) hi hlength, getElem?_heldShort_succ hlength]
  · have hheld : (Exposure.held closes fast slow).length ≤ i := by
      rw [Exposure.length_held]
      omega
    have hshort : (heldShort closes.length).length ≤ i := by
      rw [length_heldShort]
      omega
    rw [List.getElem?_eq_none hheld, List.getElem?_eq_none hshort]

end Holding

/-! ## §2 Totals -/

/-- The totals of a rule that is short after the first bar. -/
def shortTotals (closes : List Float) : List Float :=
  Indicator.runningTotals
    (List.zipWith (fun e r => e.weight * r) (heldShort closes.length) (Indicator.changes closes))

/-- The last total of a rule that is short after the first bar. -/
def shortTotal (closes : List Float) : Float :=
  (shortTotals closes).getLast?.getD 0.0

/-- Over the first `slow` bars the totals of a pair are those of a rule that is short. -/
theorem take_equity (closes : List Float) (fast slow : Nat) :
    (equity closes fast slow).take slow = (shortTotals closes).take slow := by
  unfold equity shortTotals
  rw [Indicator.causal_runningTotals, Indicator.causal_runningTotals, List.take_zipWith,
    List.take_zipWith, take_held]

/-- Before a list is longer than its slow period, the score of a pair is that of a rule that is short. -/
theorem score_eq_shortTotal {closes : List Float} {fast slow : Nat} (hvalid : fast < slow)
    (h : closes.length ≤ slow) : score closes fast slow = shortTotal closes := by
  have hequity : (equity closes fast slow).length ≤ slow := by rwa [length_equity]
  have hshort : (shortTotals closes).length ≤ slow := by
    simpa [shortTotals, Indicator.length_runningTotals, length_heldShort, Indicator.length_changes] using h
  have htotals : equity closes fast slow = shortTotals closes := by
    rw [← List.take_of_length_le hequity, take_equity, List.take_of_length_le hshort]
  rw [score, if_neg (Nat.not_le_of_lt hvalid), htotals, shortTotal]

/-! ## §3 Searches -/

/-- Among candidates that all have one score, a search finds the first one or nothing. -/
theorem head?_candidates_of_winner? {s : Sweep} {closes : List Float} {x : Float}
    (h : ∀ p ∈ s.candidates, p.score closes = x) {found : Scored}
    (hfound : s.winner? closes = some found) : s.candidates.head? = some found.pair := by
  obtain ⟨hscore, habove, before, after, hcut, hbefore, -⟩ := firstBest_of_foldl hfound
  have hx : found.pair.score closes = x := h _ (winner?_spec hfound).1
  cases before with
  | nil => simp [hcut]
  | cons p front =>
    -- What stands in front of the pair that is found has a lower score, or none.
    have hp : p.score closes = x := h p (by simp [hcut])
    have hlower : x.isNaN = true ∨ x < x := by simpa only [hp, hx] using hbefore p List.mem_cons_self
    rw [hscore, hx] at habove
    rcases hlower with hnan | hlt
    · exact absurd habove (Double.not_lt_of_isNaN_or_lt (.inl hnan))
    · exact absurd hlt (Double.lt_irrefl x)

/-! ## §4 Runs -/

section Runs

variable {series : Series} {train test : Nat} {sweep : Sweep} {cs : List Choice} {c : Choice}

/-- A choice of a run was found on a training stretch and scored on a test stretch, neither of which is longer
than asked for. -/
theorem stretches_of_mem_run (hrun : run series train test sweep = .ok cs) (hc : c ∈ cs) :
    sweep.winner? (series.slice c.split.trainStart c.split.trainStop) = some ⟨c.pair, c.trainScore⟩ ∧
      c.testScore = c.pair.score (series.slice c.split.testStart c.split.testStop) ∧
      (series.slice c.split.trainStart c.split.trainStop).length ≤ train ∧
      (series.slice c.split.testStart c.split.testStop).length ≤ test := by
  obtain ⟨p, hp, rfl⟩ := run_eq_ok hrun
  obtain ⟨-, rfl, rfl⟩ := Plan.of_eq_ok hp
  obtain ⟨hsearch, hscore⟩ := search_of_mem_choices hc
  obtain ⟨k, -, hsplit⟩ := List.mem_map.1 (run_of_mem_choices hc).1
  refine ⟨hsearch, hscore, ?_, ?_⟩
  · simp [← hsplit, Plan.splitAt, Series.slice]
  · simp [← hsplit, Plan.splitAt, Series.slice]

/-- Where no slow period is below the length of a list, every candidate has the score of a rule that is short. -/
theorem score_of_mem_candidates {closes : List Float} {length : Nat} (hlength : closes.length ≤ length)
    (hslow : ∀ l ∈ sweep.slow, length ≤ l) {p : Pair} (hp : p ∈ sweep.candidates) :
    p.score closes = shortTotal closes := by
  obtain ⟨-, hpslow, hvalid⟩ := (sweep.mem_candidates p).1 hp
  exact score_eq_shortTotal hvalid (Nat.le_trans hlength (hslow _ hpslow))

end Runs

/-- **The warm-up.** The rule is flat over the first bar, and short over the bars from there to
its slow period; so long its totals are those of a rule that is short, which depend on the prices only. All
valid pairs whose slow periods are not below the length of a list have the same score on it. In a run this means:
where no slow period is below the length of a test stretch, each test score is the total of a rule that is short
over the test stretch, whichever pair was chosen; and where none is below that of a training stretch, each choice
is of the first candidate. -/
theorem warm_up_is_short :
    (∀ (closes : List Float) (fast slow : Nat),
      (0 < closes.length → (Exposure.held closes fast slow)[0]? = some .flat) ∧
      (∀ i, 1 ≤ i → i < slow → i < closes.length →
        (Exposure.held closes fast slow)[i]? = some .short) ∧
      ∀ i < slow, (equity closes fast slow)[i]? = (shortTotals closes)[i]?) ∧
    (∀ (closes : List Float) (p q : Pair), p.fast < p.slow → q.fast < q.slow →
      closes.length ≤ p.slow → closes.length ≤ q.slow → p.score closes = q.score closes) ∧
    ∀ (series : Series) (train test : Nat) (sweep : Sweep) (cs : List Choice),
      run series train test sweep = .ok cs →
        ((∀ l ∈ sweep.slow, test ≤ l) → ∀ c ∈ cs,
          c.testScore = shortTotal (series.slice c.split.testStart c.split.testStop)) ∧
        ((∀ l ∈ sweep.slow, train ≤ l) → ∀ c ∈ cs, sweep.candidates.head? = some c.pair) := by
  refine ⟨fun closes fast slow => ⟨?_, ?_, ?_⟩, ?_, ?_⟩
  · exact Exposure.getElem?_held_zero fast slow
  · intro i hpos hslow hlength
    exact getElem?_held_of_lt_slow fast hpos hslow hlength
  · intro i hi
    rw [← List.getElem?_take_of_lt hi, take_equity, List.getElem?_take_of_lt hi]
  · intro closes p q hp hq hpslow hqslow
    rw [Pair.score, Pair.score, score_eq_shortTotal hp hpslow, score_eq_shortTotal hq hqslow]
  · intro series train test sweep cs hrun
    refine ⟨fun hslow c hc => ?_, fun hslow c hc => ?_⟩
    · obtain ⟨hsearch, hscore, -, htest⟩ := stretches_of_mem_run hrun hc
      rw [hscore]
      exact score_of_mem_candidates htest hslow (winner?_spec hsearch).1
    · obtain ⟨hsearch, -, htrain, -⟩ := stretches_of_mem_run hrun hc
      exact head?_candidates_of_winner? (fun p hp => score_of_mem_candidates htrain hslow hp) hsearch

set_option maxRecDepth 2000 in
theorem run_slideOn_short : run slideOn 2 2 ⟨[2, 1], [3]⟩ =
    .ok [⟨0, ⟨0, 2, 2, 4⟩, ⟨2, 3⟩, score [5.0, 3.0] 2 3, score [1.0, 2.0] 2 3⟩] := (rfl)

/-- Stretches of two prices and a slow period of three: short throughout, so that the first pair is chosen. -/
theorem warm_up_is_short_of_slide :
    score [5.0, 3.0] 2 3 = score [5.0, 3.0] 1 4 ∧
      (Exposure.held [5.0, 3.0, 1.0, 2.0] 1 3)[2]? = some .short ∧
      score [1.0, 2.0] 2 3 = shortTotal [1.0, 2.0] ∧
      (Sweep.candidates ⟨[2, 1], [3]⟩).head? = some ⟨2, 3⟩ := by
  obtain ⟨hfirst, hscores, hruns⟩ := warm_up_is_short
  obtain ⟨htest, hpair⟩ := hruns _ _ _ _ _ run_slideOn_short
  refine ⟨hscores [5.0, 3.0] ⟨2, 3⟩ ⟨1, 4⟩ ?_ ?_ ?_ ?_, ?_, ?_, ?_⟩
  · decide
  · decide
  · decide
  · decide
  · exact (hfirst [5.0, 3.0, 1.0, 2.0] 1 3).2.1 2 (by decide) (by decide) (by decide)
  · exact htest (by decide) _ List.mem_cons_self
  · exact hpair (by decide) _ List.mem_cons_self

end Crossover
