/-
Crossover.Proofs.Tally.Best — which of the chosen pairs is recommended.

The tallies are gone through once, from the first one on, and a later one wins only if its mean is greater.
So the recommended pair is the first of the best, in the order in which pairs were first chosen
(`firstBest_of_recommend`): no chosen pair has a greater mean, and pairs with an equal mean were first
chosen later. All this is about means that are numbers. A mean that is none exceeds nothing and is exceeded
by nothing, so it never wins against what came before, and never loses if it is that of the pair that was
chosen first (`recommend_of_isNaN`).

  §1 Going through — what one tally after the other leaves.
  §2 Ties          — the first of the best pairs, and what a recommendation depends on.
  §3 No number     — means of infinite gains that meet infinite losses.
-/
import Crossover.Proofs.Lists.FirstBest
import Crossover.Proofs.Tally.Means
import Crossover.Proofs.Tally.Recommendation
import Crossover.Proofs.Walk.Reference

namespace Crossover

/-! ## §1 Going through -/

theorem firstBest_foldl_prefer (first : Tally) (rest : List Tally) :
    FirstBest Tally.meanTestScore (first :: rest) (rest.foldl Tally.prefer first) := by
  induction rest using List.reverseRecOn with
  | nil => exact FirstBest.singleton _ first
  | append_singleton rest t ih =>
    rw [List.foldl_concat, ← List.cons_append]
    exact ih.step t

/-- The recommended pair is the first of the best among those that were chosen. -/
theorem firstBest_of_recommend {cs : List Choice} {p : Pair} (h : recommend cs = .ok p) :
    FirstBest (meanOf cs) (chosenPairs cs) p := by
  obtain ⟨first, rest, htallies, hpair⟩ := exists_tallies_of_recommend h
  have hbest := firstBest_foldl_prefer first rest
  rw [← htallies, tallies_eq] at hbest
  obtain ⟨q, hq, hfirst⟩ := hbest.of_map
  rw [← hpair, ← hq]
  exact hfirst

/-! ## §2 Ties -/

/-- What is to be recommended: a pair that was chosen. No chosen pair has a greater mean, and each other
one with an equal mean was first chosen later. -/
structure Leads (cs : List Choice) (p : Pair) : Prop where
  chosen : ∃ c ∈ cs, c.pair = p
  highest : ∀ c ∈ cs, ¬ meanOf cs p < meanOf cs c.pair
  earliest : ∀ c ∈ cs, c.pair ≠ p → (meanOf cs c.pair == meanOf cs p) = true →
    firstChoice cs p < firstChoice cs c.pair

theorem leads_of_firstBest {cs : List Choice} {p : Pair} (h : FirstBest (meanOf cs) (chosenPairs cs) p) :
    Leads cs p := by
  have hchosen : ∀ c ∈ cs, c.pair ∈ chosenPairs cs := fun c hc => mem_chosenPairs.2 ⟨c, hc, rfl⟩
  refine ⟨mem_chosenPairs.1 h.mem, fun c hc => h.not_lt (hchosen c hc), fun c hc hne heq => ?_⟩
  obtain ⟨before, after, hcut, hbefore, -⟩ := h
  have horder := pairwise_firstChoice cs
  have hplace := hchosen c hc
  rw [hcut] at horder hplace
  rcases List.mem_append.1 hplace with hold | hlater
  · exact absurd heq (Double.not_beq_of_isNaN_or_lt (hbefore _ hold))
  · rcases List.mem_cons.1 hlater with hsame | hlater
    · exact absurd hsame hne
    · exact List.rel_of_pairwise_cons (List.pairwise_append.1 horder).2.1 hlater

/-- Among means that are numbers one pair at most leads. -/
theorem Leads.eq {cs : List Choice} {p q : Pair} (hp : Leads cs p) (hq : Leads cs q)
    (hnumber : ∀ c ∈ cs, (meanOf cs c.pair).isNaN = false) : p = q := by
  obtain ⟨c, hc, rfl⟩ := hp.chosen
  obtain ⟨d, hd, rfl⟩ := hq.chosen
  have hcd : ¬ meanOf cs c.pair < meanOf cs d.pair := hp.highest d hd
  have hdc : ¬ meanOf cs d.pair < meanOf cs c.pair := hq.highest c hc
  by_contra hne
  have hbefore : firstChoice cs c.pair < firstChoice cs d.pair :=
    hp.earliest d hd (Ne.symm hne) (Double.beq_of_not_lt (hnumber d hd) (hnumber c hc) hdc hcd)
  have hafter : firstChoice cs d.pair < firstChoice cs c.pair :=
    hq.earliest c hc hne (Double.beq_of_not_lt (hnumber c hc) (hnumber d hd) hcd hdc)
  exact Nat.lt_asymm hbefore hafter

/-- What counts of a choice when a pair is recommended. -/
def Choice.vote (c : Choice) : Pair × Float :=
  (c.pair, c.testScore)

theorem group_eq_votes (cs : List Choice) :
    group cs = (cs.map Choice.vote).foldl (fun groups v => enter v.1 v.2 groups) [] := by
  rw [List.foldl_map]
  rfl

theorem recommend_congr {cs ds : List Choice} (h : cs.map Choice.vote = ds.map Choice.vote) :
    recommend cs = recommend ds := by
  have htallies : tallies cs = tallies ds := by
    rw [tallies, tallies, group_eq_votes, group_eq_votes, h]
  rw [recommend, recommend, htallies]

/-- **The recommended pair is the first of the best.** Where there are choices and the means of all chosen
pairs are numbers, a pair is recommended that was chosen; no chosen pair has a greater mean, and each other
one with an equal mean was first chosen later; and there is no second pair of which this is true. Nothing
counts but the pairs and the test scores in their order. Without choices nothing is recommended. -/
theorem recommended_pair_leads :
    (∀ cs : List Choice, cs ≠ [] → (∀ c ∈ cs, (meanOf cs c.pair).isNaN = false) →
      ∃ p, recommend cs = .ok p ∧ Leads cs p ∧ ∀ q, Leads cs q → q = p) ∧
    (∀ cs ds : List Choice, cs.map Choice.vote = ds.map Choice.vote → recommend cs = recommend ds) ∧
    recommend [] = .error .noChoices := by
  refine ⟨fun cs hsome hnumber => ?_, fun cs ds hvotes => recommend_congr hvotes, rfl⟩
  obtain ⟨p, hp⟩ := recommend_eq_ok hsome
  have hleads : Leads cs p := leads_of_firstBest (firstBest_of_recommend hp)
  exact ⟨p, hp, hleads, fun q hq => hq.eq hleads hnumber⟩

/-- A choice of a window, as far as it counts. -/
def ballot (pair : Pair) (testScore : Float) : Choice :=
  ⟨0, ⟨0, 1, 1, 2⟩, pair, 0.0, testScore⟩

/-- Three windows that choose two pairs in turn, with the same means. -/
def tie : List Choice :=
  [ballot ⟨15, 30⟩ 0.25, ballot ⟨5, 20⟩ 0.5, ballot ⟨15, 30⟩ 0.75]

/-- Of two pairs with the same mean the one that was chosen first is recommended. -/
theorem recommended_pair_leads_of_tie :
    tie ≠ [] ∧ (∀ c ∈ tie, (meanOf tie c.pair).isNaN = false) ∧
      (meanOf tie ⟨5, 20⟩ == meanOf tie ⟨15, 30⟩) = true ∧
      recommend tie = .ok ⟨15, 30⟩ ∧ Leads tie ⟨15, 30⟩ := by
  have hnumber : ∀ c ∈ tie, (meanOf tie c.pair).isNaN = false := by decide
  have hrecommend : recommend tie = .ok ⟨15, 30⟩ := rfl
  obtain ⟨p, hp, hleads, -⟩ := recommended_pair_leads.1 tie (by decide) hnumber
  rw [hrecommend] at hp
  cases hp
  exact ⟨by decide, hnumber, by decide, hrecommend, hleads⟩

/-! ## §3 No number -/

theorem foldl_prefer_of_isNaN {first : Tally} (h : first.meanTestScore.isNaN = true) (rest : List Tally) :
    rest.foldl Tally.prefer first = first := by
  induction rest with
  | nil => rfl
  | cons t rest ih =>
    rw [List.foldl_cons, Tally.prefer, if_neg (Double.not_lt_of_isNaN h _)]
    exact ih

/-- The pair that was chosen first stands in front. -/
theorem chosenPairs_cons (c : Choice) (rest : List Choice) :
    ∃ others, chosenPairs (c :: rest) = c.pair :: others := by
  rw [chosenPairs, List.map_cons, List.eraseDups_cons]
  exact ⟨_, rfl⟩

/-- A mean that is no number wins if it is that of the pair that was chosen first. -/
theorem recommend_of_isNaN {c : Choice} {rest : List Choice}
    (h : (meanOf (c :: rest) c.pair).isNaN = true) : recommend (c :: rest) = .ok c.pair := by
  obtain ⟨others, hothers⟩ := chosenPairs_cons c rest
  have hfirst : (tallyOf (c :: rest) c.pair).meanTestScore.isNaN = true := h
  unfold recommend
  rw [tallies_eq, hothers, List.map_cons]
  simp only [foldl_prefer_of_isNaN hfirst]
  rfl

/-- If the pair that was chosen first has a number for its mean, the recommended pair has one that is as
great as every other mean that is a number. -/
theorem numeric_mean_wins_of_first {c : Choice} {rest : List Choice}
    (h : (meanOf (c :: rest) c.pair).isNaN = false) :
    ∃ p ∈ chosenPairs (c :: rest), recommend (c :: rest) = .ok p ∧
      (meanOf (c :: rest) p).isNaN = false ∧
      ∀ q ∈ chosenPairs (c :: rest), (meanOf (c :: rest) q).isNaN = false →
        meanOf (c :: rest) q ≤ meanOf (c :: rest) p := by
  obtain ⟨p, hp⟩ := recommend_eq_ok (List.cons_ne_nil c rest)
  have hbest := firstBest_of_recommend hp
  have hmean : (meanOf (c :: rest) p).isNaN = false := by
    obtain ⟨others, hothers⟩ := chosenPairs_cons c rest
    rw [hothers] at hbest
    exact hbest.isNaN_eq_false h
  exact ⟨p, hbest.mem, hp, hmean, fun q hq hnumber => Double.le_of_not_lt hnumber hmean (hbest.not_lt hq)⟩

/-- **A mean that is a number wins exactly if** that of the pair that was chosen first is a number. Then the
recommended pair has a mean that is a number, and one that is as great as every other mean that is one.
Otherwise the pair that was chosen first is recommended. -/
theorem numeric_mean_wins_exactly {cs : List Choice}
    (h : ∃ t ∈ tallies cs, t.meanTestScore.isNaN = false) :
    ((∃ t ∈ tallies cs, recommend cs = .ok t.pair ∧ t.meanTestScore.isNaN = false ∧
        ∀ u ∈ tallies cs, u.meanTestScore.isNaN = false → u.meanTestScore ≤ t.meanTestScore) ↔
      ∃ c ∈ cs.head?, (meanOf cs c.pair).isNaN = false) ∧
    ∀ c ∈ cs.head?, (meanOf cs c.pair).isNaN = true → recommend cs = .ok c.pair := by
  cases cs with
  | nil =>
    obtain ⟨t, ht, -⟩ := h
    cases ht
  | cons c rest =>
    simp only [tallies_eq, List.mem_map, List.head?_cons, Option.mem_some_iff, exists_eq_left',
      forall_eq']
    refine ⟨⟨?_, fun hfirst => ?_⟩, recommend_of_isNaN⟩
    · rintro ⟨t, ⟨p, -, rfl⟩, hrecommend, hnumber, -⟩
      cases hfirst : (meanOf (c :: rest) c.pair).isNaN with
      | false => rfl
      | true =>
        rw [recommend_of_isNaN hfirst] at hrecommend
        injection hrecommend with hpair
        have hmean : (meanOf (c :: rest) p).isNaN = false := hnumber
        rw [← show c.pair = p from hpair, hfirst] at hmean
        cases hmean
    · obtain ⟨p, hp, hrecommend, hmean, hhighest⟩ := numeric_mean_wins_of_first hfirst
      refine ⟨_, ⟨p, hp, rfl⟩, hrecommend, hmean, ?_⟩
      rintro u ⟨q, hq, rfl⟩ hu
      exact hhighest q hq hu

/-- Three pairs, the second of them with a mean that is no number. -/
def gap : List Choice :=
  [ballot ⟨1, 2⟩ 0.5, ballot ⟨1, 3⟩ (0.0 / 0.0), ballot ⟨2, 3⟩ 0.75]

/-- A mean that is no number does not win against those around it. -/
theorem numeric_mean_wins_of_gap :
    (∃ t ∈ tallies gap, t.meanTestScore.isNaN = false) ∧
      (meanOf gap ⟨1, 3⟩).isNaN = true ∧ recommend gap = .ok ⟨2, 3⟩ ∧
      ∃ t ∈ tallies gap, recommend gap = .ok t.pair ∧ t.meanTestScore.isNaN = false ∧
        ∀ u ∈ tallies gap, u.meanTestScore.isNaN = false → u.meanTestScore ≤ t.meanTestScore := by
  have hsome : ∃ t ∈ tallies gap, t.meanTestScore.isNaN = false :=
    ⟨_, List.mem_cons_self, by decide⟩
  have hfirst : ∃ c ∈ gap.head?, (meanOf gap c.pair).isNaN = false := ⟨_, rfl, by decide⟩
  exact ⟨hsome, by decide, rfl, (numeric_mean_wins_exactly hsome).1.2 hfirst⟩

/-- Prices that come to zero twice within the first test stretch. -/
def zeroesPrices : List Float :=
  [1.0, 2.0, 2.0, 1.0, 0.0, 1.0, 3.0, 0.0, 2.0, 1.0, 3.0, 4.0, 3.0, 1.0]

theorem zeroesPrices_ne_nil : zeroesPrices ≠ [] := List.cons_ne_nil _ _

def zeroes : Series := Series.untimed zeroesPrices zeroesPrices_ne_nil

def zeroesChoices : List Choice :=
  [⟨0, ⟨0, 4, 4, 9⟩, ⟨2, 4⟩, score [1.0, 2.0, 2.0, 1.0] 2 4, score [0.0, 1.0, 3.0, 0.0, 2.0] 2 4⟩,
    ⟨1, ⟨5, 9, 9, 14⟩, ⟨2, 3⟩, score [1.0, 3.0, 0.0, 2.0] 2 3, score [1.0, 3.0, 4.0, 3.0, 1.0] 2 3⟩]

set_option maxRecDepth 2000 in
/-- Over finite prices, the first window may choose a pair whose gains are infinite of either sign on its
test stretch: the pair is recommended although it has no number for its mean and another pair has. -/
theorem mean_without_number_wins :
    zeroesPrices.all Float.isFinite = true ∧
      run zeroes 4 5 ⟨[2], [4, 3]⟩ = .ok zeroesChoices ∧
      (tallies zeroesChoices).map (fun t => (t.pair, t.meanTestScore.isNaN)) =
        [(⟨2, 4⟩, true), (⟨2, 3⟩, false)] ∧
      recommend zeroesChoices = .ok ⟨2, 4⟩ := by
  refine ⟨by decide, (rfl), by decide +kernel, (rfl)⟩

end Crossover
