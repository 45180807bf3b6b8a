/-
Crossover.Proofs.Sweep.Search — what the search for the best pair finds.

The search is a fold that keeps the best candidate so far. Two facts about one step, `improve`, carry
over to the whole search by induction on the candidates: what is kept is a candidate with its own
score (`winner?_spec`), and nothing is kept only if nothing was ever above `noScore`
(`winner?_eq_none_iff`).
-/
import Crossover.Sweep

namespace Crossover

/-! ## §1 One step -/

theorem improve_none (next : Scored) :
    improve none next = if noScore < next.score then some next else none := rfl

theorem improve_some_isSome (best next : Scored) : (improve (some best) next).isSome = true := by
  unfold improve
  split <;> rfl

/-- What is kept is the next pair or what was kept before. -/
theorem improve_cases (best : Option Scored) (next : Scored) :
    improve best next = some next ∨ improve best next = best := by
  unfold improve
  split
  · exact .inl rfl
  · exact .inr rfl

/-! ## §2 The search -/

/-- One step of the search on a list of prices. -/
def searchStep (closes : List Float) (best : Option Scored) (p : Pair) : Option Scored :=
  improve best ⟨p, p.score closes⟩

theorem winner?_eq (s : Sweep) (closes : List Float) :
    s.winner? closes = s.candidates.foldl (searchStep closes) none := rfl

theorem foldl_searchStep_eq_none_iff (closes : List Float) (pairs : List Pair) (best : Option Scored) :
    pairs.foldl (searchStep closes) best = none ↔
      best = none ∧ ∀ p ∈ pairs, ¬ noScore < p.score closes := by
  induction pairs generalizing best with
  | nil => simp
  | cons p rest ih =>
    rw [List.foldl_cons, ih]
    cases best with
    | none =>
      by_cases hp : noScore < p.score closes
      · simp [searchStep, improve_none, hp]
      · simp [searchStep, improve_none, hp]
    | some b =>
      have hsome : searchStep closes (some b) p ≠ none := by
        intro hnone
        have := improve_some_isSome b ⟨p, p.score closes⟩
        rw [show improve (some b) ⟨p, p.score closes⟩ = none from hnone] at this
        cases this
      simp [hsome]

/-- The search finds no pair exactly when no candidate has a score above `noScore`. -/
theorem winner?_eq_none_iff (s : Sweep) (closes : List Float) :
    s.winner? closes = none ↔ ∀ p ∈ s.candidates, ¬ noScore < p.score closes := by
  rw [winner?_eq, foldl_searchStep_eq_none_iff]
  simp

theorem foldl_searchStep_spec (closes : List Float) (pairs : List Pair) (best : Option Scored)
    {found : Scored} (h : pairs.foldl (searchStep closes) best = some found) :
    best = some found ∨ found.pair ∈ pairs ∧ found.score = found.pair.score closes := by
  induction pairs generalizing best with
  | nil => exact .inl h
  | cons p rest ih =>
    rcases ih _ h with hkept | ⟨hmem, hscore⟩
    · rcases improve_cases best ⟨p, p.score closes⟩ with hstep | hstep
      · rw [show searchStep closes best p = _ from hstep] at hkept
        cases hkept
        exact .inr ⟨List.mem_cons_self, rfl⟩
      · rw [show searchStep closes best p = _ from hstep] at hkept
        exact .inl hkept
    · exact .inr ⟨List.mem_cons_of_mem p hmem, hscore⟩

/-- The search finds a candidate, together with its own score. -/
theorem winner?_spec {s : Sweep} {closes : List Float} {found : Scored}
    (h : s.winner? closes = some found) :
    found.pair ∈ s.candidates ∧ found.score = found.pair.score closes := by
  rcases foldl_searchStep_spec closes s.candidates none h with hnone | hfound
  · cases hnone
  · exact hfound

/-- A sweep without a fast period below a slow one has no candidates. -/
theorem candidates_eq_nil_iff (s : Sweep) :
    s.candidates = [] ↔ ∀ f ∈ s.fast, ∀ l ∈ s.slow, l ≤ f := by
  rw [List.eq_nil_iff_forall_not_mem]
  constructor
  · intro h f hf l hl
    refine Nat.le_of_not_lt fun hlt => ?_
    exact h ⟨f, l⟩ ((s.mem_candidates _).2 ⟨hf, hl, hlt⟩)
  · intro h p hp
    obtain ⟨hf, hl, hlt⟩ := (s.mem_candidates p).1 hp
    exact absurd (h _ hf _ hl) (Nat.not_le_of_lt hlt)

/-- Nothing is found where there are no candidates. -/
theorem winner?_of_degenerate {s : Sweep} (h : ∀ f ∈ s.fast, ∀ l ∈ s.slow, l ≤ f)
    (closes : List Float) : s.winner? closes = none := by
  rw [winner?_eq, (candidates_eq_nil_iff s).2 h]
  rfl

end Crossover
