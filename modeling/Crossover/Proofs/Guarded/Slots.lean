/-
Crossover.Proofs.Guarded.Slots — grouping choices by the slots of their pairs.

The groups stand in a list, and a table says at which place of it the group of a pair stands, so that a
score is entered at a place and not by a search. The invariant is that the table says of every pair where
the pair first stands among the groups (`Slots.Good`); one step keeps it, and enters the score where the
search would (`enter?_eq`). So no place is out of range, and the groups are those of `group`
(`group?_eq`).

  §1 Entering — what a search makes of a list of groups.
  §2 Slots    — the table and the list.
  §3 Tallies  — what comes out.
-/
import Crossover.Proofs.Guarded.Score
import Crossover.Tally

namespace Crossover

/-! ## §1 Entering -/

/-- A score of a pair that has a group is entered there. -/
theorem enter_eq_set {pair : Pair} {groups : List Group} {slot : Nat} (score : Float)
    (h : (groups.map Group.pair).idxOf? pair = some slot) :
    ∃ g, groups[slot]? = some g ∧
      enter pair score groups = groups.set slot ⟨g.pair, g.scores ++ [score]⟩ := by
  induction groups generalizing slot with
  | nil => cases h
  | cons g rest ih =>
    rw [List.map_cons, List.idxOf?_cons] at h
    by_cases hpair : g.pair = pair
    · rw [if_pos (beq_iff_eq.2 hpair)] at h
      cases h
      exact ⟨g, rfl, by rw [enter, if_pos hpair]; rfl⟩
    · rw [if_neg (mt beq_iff_eq.1 hpair)] at h
      obtain ⟨place, hplace, rfl⟩ := Option.map_eq_some_iff.1 h
      obtain ⟨found, hfound, henter⟩ := ih hplace
      exact ⟨found, hfound, by rw [enter, if_neg hpair, henter]; rfl⟩

/-- A score of a pair without a group makes a group behind all others. -/
theorem enter_eq_concat {pair : Pair} {groups : List Group} (score : Float)
    (h : (groups.map Group.pair).idxOf? pair = none) :
    enter pair score groups = groups ++ [⟨pair, [score]⟩] := by
  induction groups with
  | nil => rfl
  | cons g rest ih =>
    rw [List.map_cons, List.idxOf?_cons] at h
    by_cases hpair : g.pair = pair
    · rw [if_pos (beq_iff_eq.2 hpair)] at h
      cases h
    · rw [if_neg (mt beq_iff_eq.1 hpair)] at h
      rw [enter, if_neg hpair, ih (Option.map_eq_none_iff.1 h)]
      rfl

namespace Guarded

/-! ## §2 Slots -/

/-- The groups so far, and for each of their pairs the place of its group. -/
structure Slots where
  places : List (Pair × Nat)
  groups : List Group

namespace Slots

def empty : Slots := ⟨[], []⟩

/-- The place of the group of a pair. A new pair gets a group without scores behind all others. -/
def slotOf? (s : Slots) (pair : Pair) : Option (Nat × Slots) :=
  match s.places.lookup pair with
  | some slot => some (slot, s)
  | none => do
    let groups := s.groups ++ [⟨pair, []⟩]
    let slot ← minus? groups.length 1
    return (slot, ⟨(pair, slot) :: s.places, groups⟩)

/-- Enters the test score of a choice at the place of its pair. -/
def enter? (s : Slots) (c : Choice) : Option Slots := do
  let (slot, next) ← s.slotOf? c.pair
  let g ← next.groups[slot]?
  return { next with groups := next.groups.set slot ⟨g.pair, g.scores ++ [c.testScore]⟩ }

/-- The table says of every pair where it stands. -/
def Good (s : Slots) : Prop :=
  ∀ pair, s.places.lookup pair = (s.groups.map Group.pair).idxOf? pair

theorem good_empty : empty.Good := fun _ => rfl

end Slots

/-- The groups of some choices. -/
def group? (choices : List Choice) : Option (List Group) := do
  let slots ← choices.foldlM Slots.enter? Slots.empty
  return slots.groups

/-- Where a pair stands once a new one has come behind the others. -/
theorem idxOf?_concat {pairs : List Pair} {new : Pair} (h : pairs.idxOf? new = none) (pair : Pair) :
    (pairs ++ [new]).idxOf? pair = if pair = new then some pairs.length else pairs.idxOf? pair := by
  have happend : (pairs ++ [new]).idxOf? pair =
      (pairs.idxOf? pair).or (([new].idxOf? pair).map (· + pairs.length)) := List.findIdx?_append
  rw [happend, List.idxOf?_cons]
  by_cases hnew : pair = new
  · rw [if_pos hnew, hnew, h, if_pos BEq.rfl]
    simp
  · rw [if_neg hnew, if_neg (mt beq_iff_eq.1 (Ne.symm hnew))]
    simp

/-- A score entered at the place of a pair leaves the pairs of all groups. -/
theorem map_pair_set {groups : List Group} {slot : Nat} {g : Group} (h : groups[slot]? = some g)
    (scores : List Float) : (groups.set slot ⟨g.pair, scores⟩).map Group.pair = groups.map Group.pair := by
  obtain ⟨hslot, rfl⟩ := List.getElem?_eq_some_iff.1 h
  have hslot' : slot < (groups.map Group.pair).length := by rwa [List.length_map]
  have hpair : groups[slot].pair = (groups.map Group.pair)[slot] := List.getElem_map _ |>.symm
  rw [List.map_set, hpair]
  exact List.set_getElem_self hslot'

/-- One choice leaves the table true, and enters its score where a search would. -/
theorem Slots.enter?_eq {s : Slots} (h : s.Good) (c : Choice) :
    ∃ next, s.enter? c = some next ∧ next.Good ∧
      next.groups = enter c.pair c.testScore s.groups := by
  cases hplace : s.places.lookup c.pair with
  | some slot =>
    obtain ⟨g, hg, henter⟩ := enter_eq_set c.testScore (h c.pair ▸ hplace)
    refine ⟨⟨s.places, s.groups.set slot ⟨g.pair, g.scores ++ [c.testScore]⟩⟩, ?_, fun pair => ?_,
      henter.symm⟩
    · simp only [enter?, slotOf?, hplace, Option.bind_eq_bind, Option.bind_some, hg]
      rfl
    · rw [map_pair_set hg]
      exact h pair
  | none =>
    have hnew : (s.groups.map Group.pair).idxOf? c.pair = none := h c.pair ▸ hplace
    have hslot : minus? (s.groups ++ [Group.mk c.pair []]).length 1 = some s.groups.length := by
      rw [minus?_eq (by simp), List.length_append, List.length_singleton, Nat.add_sub_cancel]
    have hfound : (s.groups ++ [Group.mk c.pair []])[s.groups.length]? = some ⟨c.pair, []⟩ :=
      List.getElem?_concat_length
    have hentered : (s.groups ++ [Group.mk c.pair []]).set s.groups.length ⟨c.pair, [c.testScore]⟩ =
        enter c.pair c.testScore s.groups := by
      rw [enter_eq_concat c.testScore hnew, List.set_append_right _ _ (Nat.le_refl _), Nat.sub_self]
      rfl
    refine ⟨⟨(c.pair, s.groups.length) :: s.places, enter c.pair c.testScore s.groups⟩, ?_,
      fun pair => ?_, rfl⟩
    · rw [← hentered]
      simp only [enter?, slotOf?, hplace, hslot, Option.bind_eq_bind, Option.bind_some, Option.pure_def,
        hfound, List.nil_append]
    · rw [enter_eq_concat c.testScore hnew, List.map_append, List.map_singleton, idxOf?_concat hnew,
        List.length_map, List.lookup_cons, ← h pair]
      by_cases hpair : pair = c.pair
      · rw [if_pos hpair, beq_iff_eq.2 hpair]
      · rw [if_neg hpair, beq_eq_false_iff_ne.2 hpair]

/-- From a true table on, all choices are entered where a search would enter them. -/
theorem foldlM_enter?_eq {s : Slots} (h : s.Good) (choices : List Choice) :
    ∃ last : Slots, choices.foldlM Slots.enter? s = some last ∧
      last.groups = choices.foldl (fun groups c => enter c.pair c.testScore groups) s.groups := by
  induction choices generalizing s with
  | nil => exact ⟨s, rfl, rfl⟩
  | cons c rest ih =>
    obtain ⟨next, hnext, hgood, hgroups⟩ := Slots.enter?_eq h c
    obtain ⟨last, hlast, hall⟩ := ih hgood
    refine ⟨last, ?_, ?_⟩
    · rw [List.foldlM_cons, hnext]
      exact hlast
    · rw [List.foldl_cons, hall, hgroups]

/-- Every place is in range, and the groups are those that searching makes. -/
theorem group?_eq (choices : List Choice) : group? choices = some (group choices) := by
  obtain ⟨last, hlast, hgroups⟩ := foldlM_enter?_eq Slots.good_empty choices
  rw [group?, hlast, group]
  exact congrArg some hgroups

/-! ## §3 Tallies -/

def tallies? (choices : List Choice) : Option (List Tally) := do
  let groups ← group? choices
  return groups.map Group.tally

/-- The pair with the highest mean test score, the first chosen among equals. -/
def recommend? (choices : List Choice) : Option (Except RunError Pair) := do
  match ← tallies? choices with
  | [] => return .error .noChoices
  | first :: rest => return .ok (rest.foldl Tally.prefer first).pair

theorem tallies?_eq (choices : List Choice) : tallies? choices = some (tallies choices) := by
  rw [tallies?, group?_eq]
  rfl

theorem recommend?_eq (choices : List Choice) : recommend? choices = some (recommend choices) := by
  simp only [recommend?, tallies?_eq, recommend, Option.bind_eq_bind, Option.bind_some]
  cases tallies choices with
  | nil => rfl
  | cons first rest => rfl

end Guarded

end Crossover
