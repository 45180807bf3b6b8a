/-
Crossover.Proofs.Tally.Groups — what the groups of choices are.

Grouping enters one choice after another, so everything here is about one more choice at the end.
`enter_groups` says what it does to groups that are already known: the group of its pair grows, or there
is a new group behind all others. From this follows by induction on the choices that grouping is what it
is meant to be (`group_eq`): one group for each pair, in the order in which pairs were first chosen, with
the test scores of just the choices of that pair.

  §1 First choices — the different pairs, in the order of their first choice.
  §2 Groups        — the scores of a pair, and the groups of all pairs.
  §3 Tallies       — how many windows are counted for a pair, and for all pairs together.
-/
import Crossover.Proofs.Lists.FirstOccurrences
import Crossover.Tally

namespace Crossover

/-! ## §1 First choices -/

/-- The pairs that were chosen, each once, in the order of their first choice. -/
def chosenPairs (cs : List Choice) : List Pair :=
  (cs.map Choice.pair).eraseDups

theorem mem_chosenPairs {cs : List Choice} {p : Pair} : p ∈ chosenPairs cs ↔ ∃ c ∈ cs, c.pair = p := by
  simp [chosenPairs, List.mem_eraseDups]

theorem nodup_chosenPairs (cs : List Choice) : (chosenPairs cs).Nodup :=
  nodup_eraseDups _

/-- One more choice adds its pair unless it was chosen before. -/
theorem chosenPairs_concat (cs : List Choice) (c : Choice) :
    chosenPairs (cs ++ [c]) =
      if c.pair ∈ chosenPairs cs then chosenPairs cs else chosenPairs cs ++ [c.pair] := by
  have hmem : c.pair ∈ cs.map Choice.pair ↔ c.pair ∈ chosenPairs cs := List.mem_eraseDups.symm
  simp only [← hmem]
  rw [chosenPairs, List.map_append, List.map_cons, List.map_nil, eraseDups_concat]
  rfl

/-! ## §2 Groups -/

/-- The test scores of the choices of a pair, in their order. -/
def scoresOf (cs : List Choice) (p : Pair) : List Float :=
  (cs.filter fun c => c.pair = p).map Choice.testScore

theorem scoresOf_concat (cs : List Choice) (c : Choice) (p : Pair) :
    scoresOf (cs ++ [c]) p = scoresOf cs p ++ if c.pair = p then [c.testScore] else [] := by
  by_cases h : c.pair = p
  · simp [scoresOf, h]
  · simp [scoresOf, h]

/-- The groups of some pairs, each with its scores. -/
def groupsOf (scores : Pair → List Float) (pairs : List Pair) : List Group :=
  pairs.map fun p => ⟨p, scores p⟩

/-- What entering a score does to groups of different pairs. -/
theorem enter_groups (p : Pair) (score : Float) (scores : Pair → List Float) {pairs : List Pair}
    (h : pairs.Nodup) :
    enter p score (groupsOf scores pairs) =
      if p ∈ pairs then groupsOf (fun q => scores q ++ if p = q then [score] else []) pairs
      else groupsOf scores pairs ++ [⟨p, [score]⟩] := by
  -- On the groups in front of the one that grows, or of the end.
  induction pairs with
  | nil => simp [enter, groupsOf]
  | cons q rest ih =>
    obtain ⟨hq, hrest⟩ := List.nodup_cons.1 h
    have ih := ih hrest
    unfold groupsOf at ih ⊢
    by_cases hpq : p = q
    · subst hpq
      have hothers : ∀ r ∈ rest, (⟨r, scores r⟩ : Group) =
          ⟨r, scores r ++ if p = r then [score] else []⟩ := by
        intro r hr
        have hne : p ≠ r := fun heq => hq (heq ▸ hr)
        simp [hne]
      simp only [List.map_cons, enter, if_pos, List.mem_cons, true_or, List.map_congr_left hothers]
    · have hqp : q ≠ p := fun heq => hpq heq.symm
      simp only [List.map_cons, enter, if_neg hqp, ih, List.mem_cons, hpq, false_or, if_false,
        List.append_nil]
      split
      · rfl
      · rfl

theorem group_concat (cs : List Choice) (c : Choice) :
    group (cs ++ [c]) = enter c.pair c.testScore (group cs) := by
  simp [group]

/-- **Grouping.** There is one group for each pair that was chosen, in the order of first choices, and it
has the test scores of the choices of its pair in their order. -/
theorem group_eq (cs : List Choice) : group cs = groupsOf (scoresOf cs) (chosenPairs cs) := by
  induction cs using List.reverseRecOn with
  | nil => rfl
  | append_singleton cs c ih =>
    have hscores : scoresOf (cs ++ [c]) =
        fun q => scoresOf cs q ++ if c.pair = q then [c.testScore] else [] :=
      funext (scoresOf_concat cs c)
    rw [group_concat, ih, enter_groups _ _ _ (nodup_chosenPairs cs), chosenPairs_concat, hscores]
    split
    · rfl
    · rename_i hnew
      -- A new pair has no scores yet, and the scores of the old ones stay as they are.
      have hnone : scoresOf cs c.pair = [] := by
        rw [scoresOf, List.map_eq_nil_iff, List.filter_eq_nil_iff]
        intro d hd hpair
        exact hnew (mem_chosenPairs.2 ⟨d, hd, of_decide_eq_true hpair⟩)
      have hothers : ∀ q ∈ chosenPairs cs, (⟨q, scoresOf cs q⟩ : Group) =
          ⟨q, scoresOf cs q ++ if c.pair = q then [c.testScore] else []⟩ := by
        intro q hq
        have hne : c.pair ≠ q := fun heq => hnew (heq ▸ hq)
        simp [hne]
      rw [groupsOf, groupsOf, List.map_append, List.map_congr_left hothers]
      simp [hnone]

/-! ## §3 Tallies -/

/-- The number of windows that chose a pair. -/
def timesChosen (cs : List Choice) (p : Pair) : Nat :=
  (cs.filter fun c => c.pair = p).length

theorem map_pair_tallies (cs : List Choice) : (tallies cs).map Tally.pair = chosenPairs cs := by
  rw [tallies, group_eq, groupsOf, List.map_map, List.map_map]
  exact List.map_id _

/-- A tally counts the windows that chose its pair. -/
theorem windows_eq_of_mem_tallies {cs : List Choice} {t : Tally} (h : t ∈ tallies cs) :
    t.windows = timesChosen cs t.pair := by
  rw [tallies, group_eq, groupsOf, List.map_map, List.mem_map] at h
  obtain ⟨p, -, rfl⟩ := h
  show (scoresOf cs p).length = timesChosen cs p
  rw [scoresOf, List.length_map, timesChosen]

/-- The number of scores in some groups. -/
def scoreCount (groups : List Group) : Nat :=
  (groups.map fun g => g.scores.length).sum

theorem scoreCount_enter (p : Pair) (score : Float) (groups : List Group) :
    scoreCount (enter p score groups) = scoreCount groups + 1 := by
  unfold scoreCount
  induction groups with
  | nil => rfl
  | cons g rest ih =>
    rw [enter]
    split
    · simp only [List.map_cons, List.sum_cons, List.length_append, List.length_singleton]
      omega
    · simp only [List.map_cons, List.sum_cons, ih]
      omega

theorem scoreCount_group (cs : List Choice) : scoreCount (group cs) = cs.length := by
  induction cs using List.reverseRecOn with
  | nil => rfl
  | append_singleton cs c ih =>
    rw [group_concat, scoreCount_enter, ih, List.length_append, List.length_singleton]

/-- The tallies together count every choice once. -/
theorem sum_windows_tallies (cs : List Choice) : ((tallies cs).map Tally.windows).sum = cs.length := by
  rw [← scoreCount_group, tallies, List.map_map]
  rfl

end Crossover
