/-
Crossover.Proofs.Score.OnePass — the score in one pass over the prices.

`score` goes over the prices several times, once for each average, for what is held, for the changes and for
the totals, and every pass makes a new list. `onePass?` goes over them once and keeps one number. At each bar it
looks up the prices it needs by position, so that it ends with nothing where a position is not there. The bar
`i` adds to both the same (`barGain?_eq`), and the number that is kept after some bars is the total of what these
bars add (`onePass?_eq_foldl`).

  §1 The pass  — prices looked up by position, and the loop over the bars.
  §2 One bar   — its change and its weight.
  §3 All bars  — the loop.
-/
import Crossover.Proofs.Score.Places
import Crossover.Proofs.Score.Solvency

namespace Crossover

/-! ## §1 The pass -/

/-- The sum of `count` prices from a position on, each added to `sum` in turn; none if they are not there. -/
def sumFrom? (closes : List Float) (sum : Float) (start : Nat) : Nat → Option Float
  | 0 => some sum
  | count + 1 => do
    let price ← closes[start]?
    sumFrom? closes (sum + price) (start + 1) count

/-- The mean of the last `period` prices before bar `i`. -/
def meanBefore? (closes : List Float) (period i : Nat) : Option Float :=
  if period ≤ i then do
    let sum ← sumFrom? closes (-0.0) (i - period) period
    return sum / Float.ofNat period
  else none

/-- The change over bar `i`; zero over the first, and where it is no number. -/
def barChange? (closes : List Float) : Nat → Option Float
  | 0 => some 0.0
  | i + 1 => do
    let before ← closes[i]?
    let after ← closes[i + 1]?
    let ratio := (after - before) / before
    return if ratio.isNaN then 0.0 else ratio

/-- How the change over bar `i` counts: not at all at the first bar, and from then on with a plus sign where
both means are there and the fast one is greater, else with a minus sign. -/
def barWeight? (closes : List Float) (fast slow i : Nat) : Option Float :=
  if i = 0 then some 0.0
  else if 1 ≤ fast ∧ slow ≤ i then do
    let fastMean ← meanBefore? closes fast i
    let slowMean ← meanBefore? closes slow i
    return if fastMean > slowMean then 1.0 else -1.0
  else some (-1.0)

/-- What bar `i` adds. -/
def barGain? (closes : List Float) (fast slow i : Nat) : Option Float := do
  let weight ← barWeight? closes fast slow i
  let change ← barChange? closes i
  return weight * change

/-- What the first bars add to zero, one bar after the other. -/
def onePass? (closes : List Float) (fast slow : Nat) : Nat → Option Float
  | 0 => some 0.0
  | i + 1 => do
    let sum ← onePass? closes fast slow i
    let gain ← barGain? closes fast slow i
    return sum + gain

/-! ## §2 One bar -/

section Bar

variable {closes : List Float} {fast slow i : Nat}

theorem sumFrom?_eq {sum : Float} {start count : Nat} (h : start + count ≤ closes.length) :
    sumFrom? closes sum start count = some (((closes.drop start).take count).foldl (· + ·) sum) := by
  induction count generalizing sum start with
  | zero => simp [sumFrom?]
  | succ count ih =>
    have hstart : start < closes.length := by omega
    have hrest := @ih (sum + closes[start]) (start + 1) (by omega)
    rw [List.drop_eq_getElem_cons hstart, List.take_succ_cons, List.foldl_cons, ← hrest]
    simp [sumFrom?, hstart]

/-- The mean before a bar is the average up to the bar before it. -/
theorem meanBefore?_succ {period : Nat} (hpos : 0 < period) (hperiod : period ≤ i + 1)
    (h : i < closes.length) :
    meanBefore? closes period (i + 1) = Indicator.averageAt period closes i := by
  have hsum := @sumFrom?_eq closes (-0.0) (i + 1 - period) period (by omega)
  simp [meanBefore?, hperiod, hsum, Indicator.averageAt_of_le hpos hperiod, Indicator.total]

theorem barChange?_eq (h : i < closes.length) :
    barChange? closes i = (Indicator.changes closes)[i]? := by
  cases i with
  | zero =>
    rw [Indicator.getElem?_changes_zero h]
    rfl
  | succ i =>
    have hbefore : i < closes.length := by omega
    rw [Indicator.getElem?_changes_succ]
    simp [barChange?, Indicator.change, h, hbefore]

/-- A bar is weighted by what is held over it. -/
theorem barWeight?_eq (hvalid : fast < slow) (h : i < closes.length) :
    barWeight? closes fast slow i = ((Exposure.held closes fast slow)[i]?).map Exposure.weight := by
  cases i with
  | zero =>
    rw [Exposure.getElem?_held_zero fast slow h]
    rfl
  | succ i =>
    have hi : i < closes.length := by omega
    rw [Exposure.getElem?_held_succ fast slow h, Option.map_some]
    by_cases hdefined : 1 ≤ fast ∧ slow ≤ i + 1
    · -- Both averages are there, the fast one because it takes fewer prices than the slow one.
      obtain ⟨hfast, hslow⟩ := hdefined
      have hfastMean : meanBefore? closes fast (i + 1) = Indicator.averageAt fast closes i :=
        meanBefore?_succ hfast (by omega) hi
      have hslowMean : meanBefore? closes slow (i + 1) = Indicator.averageAt slow closes i :=
        meanBefore?_succ (by omega) hslow hi
      obtain ⟨fastMean, hfastAverage⟩ : ∃ mean, Indicator.averageAt fast closes i = some mean :=
        ⟨_, Indicator.averageAt_of_le hfast (by omega) closes⟩
      obtain ⟨slowMean, hslowAverage⟩ : ∃ mean, Indicator.averageAt slow closes i = some mean :=
        ⟨_, Indicator.averageAt_of_le (by omega) hslow closes⟩
      by_cases hlong : slowMean < fastMean
      · simp [barWeight?, hfast, hslow, hfastMean, hslowMean, hfastAverage, hslowAverage, hlong,
          Exposure.ofAverages, Exposure.weight]
      · simp [barWeight?, hfast, hslow, hfastMean, hslowMean, hfastAverage, hslowAverage, hlong,
          Exposure.ofAverages, Exposure.weight]
    · have hshort : Exposure.ofAverages (Indicator.averageAt fast closes i)
          (Indicator.averageAt slow closes i) = .short := by
        by_cases hfast : fast = 0
        · simp [hfast]
        · simp [Indicator.averageAt_of_lt (show i + 1 < slow by omega)]
      rw [hshort]
      simp [barWeight?, hdefined, Exposure.weight]

/-- The bar `i` adds the same to both. -/
theorem barGain?_eq (hvalid : fast < slow) (h : i < closes.length) :
    barGain? closes fast slow i = (bars closes fast slow)[i]?.map gain := by
  have hheld : i < (Exposure.held closes fast slow).length := by rwa [Exposure.length_held]
  have hchange : i < (Indicator.changes closes).length := by rwa [Indicator.length_changes]
  simp [barGain?, barWeight?_eq hvalid h, barChange?_eq h, bars, gain, hheld, hchange]

end Bar

/-! ## §3 All bars -/

theorem length_bars (closes : List Float) (fast slow : Nat) :
    (bars closes fast slow).length = closes.length := by
  simp [bars, Exposure.length_held, Indicator.length_changes]

/-- After some bars the pass has the total of what these bars add. -/
theorem onePass?_eq_foldl {closes : List Float} {fast slow : Nat} (hvalid : fast < slow) {count : Nat}
    (h : count ≤ closes.length) :
    onePass? closes fast slow count =
      some ((((bars closes fast slow).map gain).take count).foldl (· + ·) 0.0) := by
  induction count with
  | zero => simp [onePass?]
  | succ i ih =>
    have hbar : i < (bars closes fast slow).length := by
      rw [length_bars]
      omega
    rw [onePass?, ih (by omega), barGain?_eq hvalid h, List.take_add_one, List.foldl_append]
    simp [hbar]

/-- **The score in one pass.** The score of a valid pair is what one pass over the prices adds up, and no
position that the pass looks up is missing. Without prices that is zero. A pair that is not valid has the score
minus infinity on any prices. -/
theorem score_eq_onePass :
    (∀ (closes : List Float) (fast slow : Nat), fast < slow →
      onePass? closes fast slow closes.length = some (score closes fast slow)) ∧
    (∀ fast slow : Nat, fast < slow → score [] fast slow = 0.0) ∧
    ∀ (closes : List Float) (fast slow : Nat), slow ≤ fast → score closes fast slow = noScore := by
  refine ⟨?_, ?_, ?_⟩
  · intro closes fast slow hvalid
    have hbars : ((bars closes fast slow).map gain).length = closes.length := by
      rw [List.length_map, length_bars]
    rw [onePass?_eq_foldl hvalid (Nat.le_refl _), score_eq_foldl hvalid, ← hbars, List.take_length]
  · intro fast slow hvalid
    rw [score_eq_foldl hvalid]
    rfl
  · intro closes fast slow hbad
    rw [score, if_pos hbad]

/-- Prices that rise by one from bar to bar. -/
def risingPrices : List Float := [1.0, 2.0, 3.0, 4.0, 5.0, 6.0, 7.0, 8.0]

/-- Prices that rise: two bars short and the others long, and no score for a pair of equal periods. -/
theorem score_eq_onePass_of_rising :
    onePass? risingPrices 2 3 8 = some (score risingPrices 2 3) ∧
      (score risingPrices 2 3).toBits = 0xbfda0ea0ea0ea0ed ∧
      score [] 2 3 = 0.0 ∧ score risingPrices 3 3 = noScore := by
  obtain ⟨hpass, hempty, hbad⟩ := score_eq_onePass
  refine ⟨?_, ?_, ?_, ?_⟩
  · exact hpass risingPrices 2 3 (by decide)
  · decide +kernel
  · exact hempty 2 3 (by decide)
  · exact hbad risingPrices 3 3 (by decide)

end Crossover
