/-
Crossover.Proofs.Tally.Means — tallies by sorting out the choices of each pair.

Choices are grouped in one pass, by a table that says at which place the group of a pair stands. What
comes out is what sorting out the choices of one pair after the other gives (`tallies_eq`): for each pair
that was chosen, in the order of first choices, how often it was chosen and the mean of its test scores.
The choices of all pairs together are the choices that there are (`perm_flatMap_filter`), and a pair that
was chosen was chosen at least once, so that no mean divides by zero.

  §1 Means   — the tally of a pair, and the place of its first choice.
  §2 Sorting — every choice is one of its pair.
  §3 Slots   — the pass with the table, and a guard at the division.
-/
import Crossover.Proofs.Guarded.Slots
import Crossover.Proofs.Numeric.Count
import Crossover.Proofs.Tally.Groups

namespace Crossover

/-! ## §1 Means -/

/-- The mean test score of a pair over the windows that chose it, added up in their order from minus
zero. -/
def meanOf (cs : List Choice) (p : Pair) : Float :=
  (scoresOf cs p).foldl (· + ·) (-0.0) / Float.ofNat (timesChosen cs p)

def tallyOf (cs : List Choice) (p : Pair) : Tally :=
  ⟨p, timesChosen cs p, meanOf cs p⟩

theorem length_scoresOf (cs : List Choice) (p : Pair) : (scoresOf cs p).length = timesChosen cs p := by
  rw [scoresOf, List.length_map, timesChosen]

theorem tally_group (cs : List Choice) (p : Pair) : Group.tally ⟨p, scoresOf cs p⟩ = tallyOf cs p := by
  simp only [Group.tally, tallyOf, meanOf, length_scoresOf]
  rfl

/-- There is one tally for each pair that was chosen. -/
theorem tallies_eq (cs : List Choice) : tallies cs = (chosenPairs cs).map (tallyOf cs) := by
  rw [tallies, group_eq, groupsOf, List.map_map]
  exact List.map_congr_left fun p _ => tally_group cs p

/-- A pair that was chosen was chosen at least once. -/
theorem timesChosen_pos {cs : List Choice} {p : Pair} (h : p ∈ chosenPairs cs) :
    0 < timesChosen cs p := by
  obtain ⟨c, hc, hpair⟩ := mem_chosenPairs.1 h
  exact List.length_pos_of_mem (List.mem_filter.2 ⟨hc, decide_eq_true hpair⟩)

/-- The place of the first choice of a pair. -/
def firstChoice (cs : List Choice) (p : Pair) : ℕ :=
  (cs.map Choice.pair).idxOf p

theorem pairwise_firstChoice (cs : List Choice) :
    (chosenPairs cs).Pairwise fun p q => firstChoice cs p < firstChoice cs q :=
  pairwise_idxOf_eraseDups _

/-! ## §2 Sorting -/

/-- Values sorted out by what they have for a key are all there, and each once. -/
theorem perm_flatMap_filter {α β : Type} [DecidableEq β] (key : α → β) {keys : List β}
    (hkeys : keys.Nodup) {xs : List α} (h : ∀ x ∈ xs, key x ∈ keys) :
    (keys.flatMap fun k => xs.filter fun x => key x = k).Perm xs := by
  induction keys generalizing xs with
  | nil =>
    have hnone : xs = [] := List.eq_nil_iff_forall_not_mem.2 fun x hx => by simpa using h x hx
    simp [hnone]
  | cons k rest ih =>
    obtain ⟨hk, hrest⟩ := List.nodup_cons.1 hkeys
    have hothers : ∀ x ∈ xs.filter (fun x => !decide (key x = k)), key x ∈ rest := by
      intro x hx
      obtain ⟨hx, hne⟩ := List.mem_filter.1 hx
      have hne : key x ≠ k := by simpa using hne
      simpa [hne] using h x hx
    -- What is left after the first key has for every other key what there was before.
    have hleft : ∀ q ∈ rest, (xs.filter fun x => key x = q) =
        (xs.filter fun x => !decide (key x = k)).filter fun x => key x = q := by
      intro q hq
      have hqk : q ≠ k := fun heq => hk (heq ▸ hq)
      rw [List.filter_filter]
      refine List.filter_congr fun x _ => ?_
      by_cases hx : key x = q
      · simp [hx, hqk]
      · simp [hx]
    rw [List.flatMap_cons, List.flatMap_congr hleft]
    exact ((ih hrest hothers).append_left _).trans (List.filter_append_perm _ xs)

/-- Every choice is one of its pair. -/
theorem perm_choices (cs : List Choice) :
    ((chosenPairs cs).flatMap fun p => cs.filter fun c => c.pair = p).Perm cs :=
  perm_flatMap_filter Choice.pair (nodup_chosenPairs cs) fun c hc => mem_chosenPairs.2 ⟨c, hc, rfl⟩

/-! ## §3 Slots -/

namespace Guarded

/-- The tally of a group; none if its mean would divide by zero. -/
def tally? (g : Group) : Option Tally :=
  if Float.ofNat g.scores.length == 0.0 then none else some g.tally

/-- The tallies of some choices, grouped by the slots of their pairs. -/
def slotTallies? (cs : List Choice) : Option (List Tally) := do
  let groups ← group? cs
  groups.mapM tally?

theorem tally?_eq {g : Group} (h : 0 < g.scores.length) : tally? g = some g.tally :=
  if_neg (Double.ofNat_ne_zero h)

/-- No place is out of range, and nothing is divided by zero. -/
theorem slotTallies?_eq (cs : List Choice) : slotTallies? cs = some (tallies cs) := by
  have hscores : ∀ g ∈ group cs, tally? g = some g.tally := by
    intro g hg
    rw [group_eq] at hg
    obtain ⟨p, hp, rfl⟩ := List.mem_map.1 hg
    refine tally?_eq ?_
    rw [length_scoresOf]
    exact timesChosen_pos hp
  rw [slotTallies?, group?_eq]
  exact mapM_eq_some hscores

end Guarded

/-- **Grouping by slots is sorting out by pairs.** Every place that the table names is in range and no
count is zero where it divides, so the tallies of any choices are there. They are those of the pairs that
were chosen, each pair once and in the order of first choices, and that of a pair has the number of choices
of it and the mean of just their test scores. Sorted out by pairs, the choices are all there and each once. -/
theorem slots_sort_out_pairs (cs : List Choice) :
    (Guarded.slotTallies? cs = some (tallies cs) ∧ tallies cs = (chosenPairs cs).map (tallyOf cs)) ∧
      ((∀ p, p ∈ chosenPairs cs ↔ ∃ c ∈ cs, c.pair = p) ∧
        ((chosenPairs cs).Pairwise fun p q => firstChoice cs p < firstChoice cs q) ∧
        ((tallies cs).map Tally.pair).Nodup) ∧
      (((chosenPairs cs).flatMap fun p => cs.filter fun c => c.pair = p).Perm cs ∧
        ((tallies cs).map Tally.windows).sum = cs.length) ∧
      ∀ p ∈ chosenPairs cs, 0 < timesChosen cs p ∧ ¬ (Float.ofNat (timesChosen cs p) == 0.0) = true := by
  refine ⟨⟨Guarded.slotTallies?_eq cs, tallies_eq cs⟩,
    ⟨fun p => mem_chosenPairs, pairwise_firstChoice cs, ?_⟩,
    ⟨perm_choices cs, sum_windows_tallies cs⟩, fun p hp => ?_⟩
  · rw [map_pair_tallies]
    exact nodup_chosenPairs cs
  · exact ⟨timesChosen_pos hp, Double.ofNat_ne_zero (timesChosen_pos hp)⟩

end Crossover
