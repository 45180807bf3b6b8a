/-
Crossover.Proofs.Sweep.Division — a search in parts.

The fast periods of a sweep may be divided among several searches whose results are then put together in
the order of the parts (`mergeWinners`). A search over all of them goes on from what it has found so far,
and not from the start. Both come to the same because one step of a search merges what it has with what the
step would find alone (`searchStep_eq_merge`), and because merging is associative on results whose scores are
above minus infinity (`mergeWinners_assoc`). Among scores that are no numbers it is not: these beat nothing
and are beaten by nothing.

  §1 Merging         — the better of two results, the first one of equals.
  §2 Searches        — one step, and a search that goes on from an earlier result.
  §3 Divisions       — fast periods in two parts, in a row of parts, and in parts of parts.
  §4 Further periods — when periods that are added at the end change what is found.
-/
import Crossover.Proofs.Sweep.Best

namespace Crossover

/-! ## §1 Merging -/

/-- The better of two results of searches. The second one wins only if its score is greater. -/
def mergeWinners : Option Scored → Option Scored → Option Scored
  | none, second => second
  | some first, none => some first
  | some first, some second => if first.score < second.score then some second else some first

@[simp] theorem mergeWinners_none_left (second : Option Scored) : mergeWinners none second = second := rfl

@[simp] theorem mergeWinners_none_right (first : Option Scored) : mergeWinners first none = first := by
  cases first <;> rfl

/-- Whatever was found has a score above minus infinity. -/
def AboveNoScore (found : Option Scored) : Prop :=
  ∀ best ∈ found, noScore < best.score

theorem aboveNoScore_none : AboveNoScore none := by
  simp [AboveNoScore]

theorem aboveNoScore_some {best : Scored} : AboveNoScore (some best) ↔ noScore < best.score := by
  simp [AboveNoScore]

/-- Of three results the middle one has to have a number for its score. -/
theorem mergeWinners_assoc (first third : Option Scored) {second : Option Scored} (h : AboveNoScore second) :
    mergeWinners (mergeWinners first second) third = mergeWinners first (mergeWinners second third) := by
  cases first with
  | none => simp
  | some a =>
    cases third with
    | none => simp
    | some c =>
      cases second with
      | none => simp
      | some b =>
        have hb : b.score.isNaN = false := Double.isNaN_eq_false_of_lt (aboveNoScore_some.1 h)
        by_cases hab : a.score < b.score
        · by_cases hbc : b.score < c.score
          · have hac : a.score < c.score := Double.lt_trans hab hbc
            simp [mergeWinners, hab, hbc, hac]
          · simp [mergeWinners, hab, hbc]
        · by_cases hbc : b.score < c.score
          · simp [mergeWinners, hab, hbc]
          · have hac : ¬ a.score < c.score := by
              intro hac
              rcases Double.isNaN_or_lt hab hac with hnan | hlt
              · rw [hb] at hnan
                cases hnan
              · exact hbc hlt
            simp [mergeWinners, hab, hbc, hac]

/-- Without a number in the middle it depends on the order of merging what is found. -/
example :
    ((mergeWinners (mergeWinners (some ⟨⟨1, 2⟩, 0.0⟩) (some ⟨⟨1, 3⟩, 0.0 / 0.0⟩)) (some ⟨⟨1, 4⟩, 1.0⟩)).map
        Scored.pair = some ⟨1, 4⟩) ∧
      (mergeWinners (some ⟨⟨1, 2⟩, 0.0⟩) (mergeWinners (some ⟨⟨1, 3⟩, 0.0 / 0.0⟩) (some ⟨⟨1, 4⟩, 1.0⟩))).map
        Scored.pair = some ⟨1, 2⟩ := by
  decide +kernel

/-! ## §2 Searches -/

section Searches

variable {closes : List Float} {best : Option Scored}

/-- One step of a search merges what it has with what the step would find alone. -/
theorem searchStep_eq_merge (h : AboveNoScore best) (p : Pair) :
    searchStep closes best p = mergeWinners best (searchStep closes none p) := by
  cases best with
  | none => rfl
  | some b =>
    have hb : noScore < b.score := aboveNoScore_some.1 h
    by_cases hp : noScore < p.score closes
    · by_cases hbetter : b.score < p.score closes
      · simp [searchStep, improve, bestScore, mergeWinners, hp, hbetter]
      · simp [searchStep, improve, bestScore, mergeWinners, hp, hbetter]
    · have hworse : ¬ b.score < p.score closes := by
        intro hbetter
        exact hp (Double.lt_trans hb hbetter)
      simp [searchStep, improve, bestScore, hp, hworse]

/-- What beats the best so far is above minus infinity as well. -/
theorem noScore_lt_of_bestScore_lt (h : AboveNoScore best) {x : Float} (hx : bestScore best < x) :
    noScore < x := by
  cases best with
  | none => exact hx
  | some b => exact Double.lt_trans (aboveNoScore_some.1 h) hx

theorem aboveNoScore_searchStep (h : AboveNoScore best) (p : Pair) :
    AboveNoScore (searchStep closes best p) := by
  unfold searchStep improve
  split
  · rename_i hbetter
    exact aboveNoScore_some.2 (noScore_lt_of_bestScore_lt h hbetter)
  · exact h

/-- A search that goes on from a result merges it with what the search would find alone. -/
theorem foldl_searchStep_eq_merge (h : AboveNoScore best) (pairs : List Pair) :
    pairs.foldl (searchStep closes) best =
      mergeWinners best (pairs.foldl (searchStep closes) none) := by
  -- The best so far changes with each step, and so does what the search alone has found.
  induction pairs generalizing best with
  | nil => simp
  | cons p rest ih =>
    have halone : AboveNoScore (searchStep closes none p) := aboveNoScore_searchStep aboveNoScore_none p
    calc (p :: rest).foldl (searchStep closes) best
        = mergeWinners (searchStep closes best p) (rest.foldl (searchStep closes) none) :=
          ih (aboveNoScore_searchStep h p)
      _ = mergeWinners best
            (mergeWinners (searchStep closes none p) (rest.foldl (searchStep closes) none)) := by
          rw [searchStep_eq_merge h, mergeWinners_assoc _ _ halone]
      _ = mergeWinners best ((p :: rest).foldl (searchStep closes) none) := by
          rw [List.foldl_cons, ih halone]

end Searches

/-- What a search finds has a score above minus infinity. -/
theorem aboveNoScore_winner? (s : Sweep) (closes : List Float) : AboveNoScore (s.winner? closes) := by
  intro best hbest
  exact (firstBest_of_foldl hbest).2.1

/-! ## §3 Divisions -/

section Divisions

variable (slow : List Nat) (closes : List Float)

/-- Candidates come in the order of their fast periods. -/
theorem candidates_append (front back : List Nat) :
    Sweep.candidates ⟨front ++ back, slow⟩ =
      Sweep.candidates ⟨front, slow⟩ ++ Sweep.candidates ⟨back, slow⟩ := by
  simp [Sweep.candidates]

theorem winner?_append (front back : List Nat) :
    Sweep.winner? ⟨front ++ back, slow⟩ closes =
      mergeWinners (Sweep.winner? ⟨front, slow⟩ closes) (Sweep.winner? ⟨back, slow⟩ closes) := by
  have hfront : AboveNoScore (Sweep.winner? ⟨front, slow⟩ closes) := aboveNoScore_winner? _ _
  rw [winner?_eq, candidates_append, List.foldl_append]
  exact foldl_searchStep_eq_merge hfront _

/-- Parts in a row are searched one by one, and merged from the first to the last. -/
theorem winner?_flatten (parts : List (List Nat)) :
    Sweep.winner? ⟨parts.flatten, slow⟩ closes =
      (parts.map fun fast => Sweep.winner? ⟨fast, slow⟩ closes).foldl mergeWinners none := by
  induction parts using List.reverseRecOn with
  | nil => rfl
  | append_singleton parts last ih =>
    simp [winner?_append, ih]

end Divisions

/-- Some fast periods divided into parts, and these into parts again, down to parts that are searched on
their own. -/
inductive Division where
  | part (fast : List Nat)
  | halves (front back : Division)

namespace Division

/-- All periods of a division, in their order. -/
def periods : Division → List Nat
  | part fast => fast
  | halves front back => front.periods ++ back.periods

/-- The result of searching the parts and merging the results as the division has it. -/
def winner? (slow : List Nat) (closes : List Float) : Division → Option Scored
  | part fast => Sweep.winner? ⟨fast, slow⟩ closes
  | halves front back => mergeWinners (front.winner? slow closes) (back.winner? slow closes)

/-- How the periods are divided makes no difference. -/
theorem winner?_eq (slow : List Nat) (closes : List Float) (d : Division) :
    d.winner? slow closes = Sweep.winner? ⟨d.periods, slow⟩ closes := by
  induction d with
  | part fast => rfl
  | halves front back ihfront ihback => rw [winner?, periods, winner?_append, ihfront, ihback]

end Division

/-! ## §4 Further periods -/

section Further

variable {first second : Option Scored}

theorem bestScore_isNaN_eq_false (h : AboveNoScore first) : (bestScore first).isNaN = false := by
  cases first with
  | none => rfl
  | some a => exact Double.isNaN_eq_false_of_lt (aboveNoScore_some.1 h)

/-- Merging by the scores to beat. -/
theorem mergeWinners_eq (hfirst : AboveNoScore first) (hsecond : AboveNoScore second) :
    mergeWinners first second = if bestScore first < bestScore second then second else first := by
  cases second with
  | none =>
    have hkept : ¬ bestScore first < bestScore none := by
      intro hlt
      exact Double.lt_irrefl noScore (noScore_lt_of_bestScore_lt hfirst hlt)
    simp [hkept]
  | some b =>
    cases first with
    | none => simp [bestScore, aboveNoScore_some.1 hsecond]
    | some a => rfl

/-- Merging never lowers the score to beat. -/
theorem bestScore_le_mergeWinners (hfirst : AboveNoScore first) (hsecond : AboveNoScore second) :
    bestScore first ≤ bestScore (mergeWinners first second) := by
  have hnumber := bestScore_isNaN_eq_false hfirst
  rw [mergeWinners_eq hfirst hsecond]
  split
  · rename_i hbetter
    refine Double.le_of_not_lt hnumber (bestScore_isNaN_eq_false hsecond) ?_
    exact Double.not_lt_of_isNaN_or_lt (.inr hbetter)
  · exact Double.le_of_not_lt hnumber hnumber (Double.lt_irrefl _)

/-- The first result stays exactly if the second one does not beat it. -/
theorem mergeWinners_eq_first_iff (hfirst : AboveNoScore first) (hsecond : AboveNoScore second) :
    mergeWinners first second = first ↔ ¬ bestScore first < bestScore second := by
  rw [mergeWinners_eq hfirst hsecond]
  by_cases hbetter : bestScore first < bestScore second
  · have hother : second ≠ first := by
      rintro rfl
      exact Double.lt_irrefl _ hbetter
    simp [hbetter, hother]
  · simp [hbetter]

end Further

/-- A score is beaten by the result of a search exactly if one of its candidates beats it. -/
theorem lt_bestScore_winner?_iff {first : Option Scored} (h : AboveNoScore first) (s : Sweep)
    (closes : List Float) :
    bestScore first < bestScore (s.winner? closes) ↔
      ∃ p ∈ s.candidates, bestScore first < p.score closes := by
  constructor
  · intro hbetter
    cases hfound : s.winner? closes with
    | none =>
      rw [hfound] at hbetter
      exact absurd (noScore_lt_of_bestScore_lt h hbetter) (Double.lt_irrefl noScore)
    | some found =>
      obtain ⟨hmem, hscore⟩ := winner?_spec hfound
      rw [hfound, bestScore, hscore] at hbetter
      exact ⟨found.pair, hmem, hbetter⟩
  · rintro ⟨p, hp, hbetter⟩
    have hfound : (bestScore (s.winner? closes)).isNaN = false :=
      bestScore_isNaN_eq_false (aboveNoScore_winner? s closes)
    by_contra hworse
    rcases Double.isNaN_or_lt hworse hbetter with hnan | hlt
    · rw [hfound] at hnan
      cases hnan
    · exact not_bestScore_lt_of_mem hp hlt

/-- **A search splits over the fast periods.** What is found with the periods of two lists is what is found
with each of them, merged; merging is associative on results of searches. So the periods may be divided into
parts in any way, the parts searched on their own, and the results merged in order: pair and score are those
of one search. Periods that are added at the end never lower the best score, and they leave what was found
exactly if none of their candidates has a greater one. -/
theorem search_splits_over_fast_periods (slow : List Nat) (closes : List Float) :
    (∀ front back : List Nat, Sweep.winner? ⟨front ++ back, slow⟩ closes =
      mergeWinners (Sweep.winner? ⟨front, slow⟩ closes) (Sweep.winner? ⟨back, slow⟩ closes)) ∧
    (∀ (s t u : Sweep) (a b c : List Float),
      mergeWinners (mergeWinners (s.winner? a) (t.winner? b)) (u.winner? c) =
        mergeWinners (s.winner? a) (mergeWinners (t.winner? b) (u.winner? c))) ∧
    (∀ parts : List (List Nat), Sweep.winner? ⟨parts.flatten, slow⟩ closes =
      (parts.map fun fast => Sweep.winner? ⟨fast, slow⟩ closes).foldl mergeWinners none) ∧
    (∀ d : Division, d.winner? slow closes = Sweep.winner? ⟨d.periods, slow⟩ closes) ∧
    ∀ front back : List Nat,
      bestScore (Sweep.winner? ⟨front, slow⟩ closes) ≤
          bestScore (Sweep.winner? ⟨front ++ back, slow⟩ closes) ∧
        (Sweep.winner? ⟨front ++ back, slow⟩ closes = Sweep.winner? ⟨front, slow⟩ closes ↔
          ∀ p ∈ Sweep.candidates ⟨back, slow⟩,
            ¬ bestScore (Sweep.winner? ⟨front, slow⟩ closes) < p.score closes) := by
  refine ⟨winner?_append slow closes, ?_, winner?_flatten slow closes, Division.winner?_eq slow closes, ?_⟩
  · intro s t u a b c
    exact mergeWinners_assoc _ _ (aboveNoScore_winner? t b)
  · intro front back
    have hfront := aboveNoScore_winner? ⟨front, slow⟩ closes
    have hback := aboveNoScore_winner? ⟨back, slow⟩ closes
    rw [winner?_append]
    constructor
    · exact bestScore_le_mergeWinners hfront hback
    · rw [mergeWinners_eq_first_iff hfront hback, lt_bestScore_winner?_iff hfront]
      simp

end Crossover
