/-
Crossover.Proofs.Tally.Recommendation — when there is a pair to recommend.

Entering a score under its pair leaves some group behind (`enter_ne_nil`), so the groups of choices are
none exactly when there are no choices, and a recommendation fails for no other reason. What is
recommended has a tally, whatever the means are, since a step keeps one of the two tallies it compares.
-/
import Crossover.Tally

namespace Crossover

theorem enter_ne_nil (pair : Pair) (score : Float) (groups : List Group) :
    enter pair score groups ≠ [] := by
  cases groups with
  | nil => simp [enter]
  | cons g rest =>
    rw [enter]
    split <;> simp

theorem foldl_enter_ne_nil (choices : List Choice) {groups : List Group} (h : groups ≠ []) :
    choices.foldl (fun groups c => enter c.pair c.testScore groups) groups ≠ [] := by
  induction choices generalizing groups with
  | nil => exact h
  | cons c rest ih => exact ih (enter_ne_nil c.pair c.testScore groups)

theorem group_eq_nil_iff (choices : List Choice) : group choices = [] ↔ choices = [] := by
  cases choices with
  | nil => simp [group]
  | cons c rest =>
    have := foldl_enter_ne_nil rest (enter_ne_nil c.pair c.testScore [])
    simp only [reduceCtorEq, iff_false]
    exact this

/-- There is a pair to recommend as soon as there is a choice. -/
theorem recommend_eq_ok {choices : List Choice} (h : choices ≠ []) :
    ∃ pair, recommend choices = .ok pair := by
  have htallies : tallies choices ≠ [] := by
    rw [tallies, ne_eq, List.map_eq_nil_iff, group_eq_nil_iff]
    exact h
  unfold recommend
  cases hcases : tallies choices with
  | nil => exact absurd hcases htallies
  | cons first rest => exact ⟨_, rfl⟩

theorem foldl_prefer_mem (first : Tally) (rest : List Tally) :
    rest.foldl Tally.prefer first ∈ first :: rest := by
  induction rest generalizing first with
  | nil => simp
  | cons t rest ih =>
    rw [List.foldl_cons]
    rcases List.mem_cons.1 (ih (first.prefer t)) with hkept | hlater
    · rw [hkept, Tally.prefer]
      split
      · simp
      · simp
    · exact List.mem_cons_of_mem _ (List.mem_cons_of_mem _ hlater)

/-- What is recommended is what going through the tallies leaves. -/
theorem exists_tallies_of_recommend {cs : List Choice} {p : Pair} (h : recommend cs = .ok p) :
    ∃ first rest, tallies cs = first :: rest ∧ (rest.foldl Tally.prefer first).pair = p := by
  unfold recommend at h
  cases htallies : tallies cs with
  | nil =>
    rw [htallies] at h
    cases h
  | cons first rest =>
    rw [htallies] at h
    cases h
    exact ⟨first, rest, rfl, rfl⟩

/-- A pair that is recommended has a tally. -/
theorem mem_tallies_of_recommend {cs : List Choice} {p : Pair} (h : recommend cs = .ok p) :
    ∃ t ∈ tallies cs, t.pair = p := by
  obtain ⟨first, rest, htallies, hpair⟩ := exists_tallies_of_recommend h
  rw [htallies]
  exact ⟨_, foldl_prefer_mem first rest, hpair⟩

end Crossover
