/-
Crossover.Proofs.Sweep.Repeats — a period that is listed twice is tried once as far as results go.

Dropping repeated periods drops repeated candidates and leaves the others in their order
(`candidates_distinct`). The search takes no notice of a candidate that it has met before, since the best
score so far is never below that of a candidate that was tried (`not_bestScore_lt_of_mem`). Everything
above the search sees the sweep only through its winners and through the checks of its periods.

  §1 Sweeps    — candidates and checks without repetitions.
  §2 Searches  — candidates that have been met before.
  §3 Runs      — every window, and the outcome.
-/
import Crossover.Proofs.Lists.FirstOccurrences
import Crossover.Proofs.Outcome.Verdict
import Crossover.Proofs.Sweep.Best

namespace Crossover

/-! ## §1 Sweeps -/

/-- A sweep without repeated periods, the first of each kept in its place. -/
def Sweep.distinct (s : Sweep) : Sweep :=
  ⟨s.fast.eraseDups, s.slow.eraseDups⟩

theorem Pair.mk_injective : Function.Injective2 Pair.mk := by
  intro f f' l l' h
  exact Pair.mk.inj h

/-- A sweep without repeated periods has the same candidates, each of them once. -/
theorem candidates_distinct (s : Sweep) : s.distinct.candidates = s.candidates.eraseDups := by
  rw [Sweep.candidates, Sweep.candidates, eraseDups_filter, eraseDups_flatMap_map Pair.mk_injective]
  rfl

theorem sideFault?_eraseDups (side : Side) (periods : List Nat) :
    sideFault? side periods.eraseDups = sideFault? side periods := by
  have hnil : periods.eraseDups = [] ↔ periods = [] := by
    simp only [List.eq_nil_iff_forall_not_mem, List.mem_eraseDups]
  simp only [sideFault?, hnil, List.mem_eraseDups]

/-- The checks of a sweep do not count. -/
theorem sweepFault?_distinct (s : Sweep) : sweepFault? s.distinct = sweepFault? s := by
  rw [sweepFault?, sweepFault?, Sweep.distinct, sideFault?_eraseDups, sideFault?_eraseDups]

/-! ## §2 Searches -/

/-- The search takes no notice of a candidate that it has met before. -/
theorem searchStep_of_mem {closes : List Float} (pairs : List Pair) (p : Pair) (hp : p ∈ pairs) :
    searchStep closes (pairs.foldl (searchStep closes) none) p =
      pairs.foldl (searchStep closes) none :=
  if_neg (not_bestScore_lt_of_mem hp)

theorem winner?_distinct (s : Sweep) (closes : List Float) :
    s.distinct.winner? closes = s.winner? closes := by
  rw [winner?_eq, winner?_eq, candidates_distinct, foldl_eraseDups searchStep_of_mem]

/-! ## §3 Runs -/

/-- Every window has the same trial. -/
theorem Trial.run_distinct (series : Series) (s : Sweep) :
    Trial.run series s.distinct = Trial.run series s := by
  funext b
  simp only [Trial.run, winner?_distinct]

theorem across_distinct (series : Series) (train test : Nat) (s : Sweep) :
    Walk.across series train test s.distinct = Walk.across series train test s := by
  have hover : Walk.over series s.distinct = Walk.over series s := by
    funext p
    rw [Walk.over, Walk.over, Trial.run_distinct]
  rw [across_eq, across_eq, sweepFault?_distinct, hover]

/-- **Repeated periods change nothing.** A sweep without its repeated periods has the same candidates, each
once and in the order of their first places. A run over any series is the same with it, choices and errors
alike, and so is the outcome of optimizing. -/
theorem repeated_periods_change_nothing (series : Series) (train test : Nat) (s : Sweep) :
    s.distinct.candidates = s.candidates.eraseDups ∧
      run series train test s.distinct = run series train test s ∧
      Optimizer.optimize ⟨train, test, s.distinct⟩ series = Optimizer.optimize ⟨train, test, s⟩ series := by
  refine ⟨candidates_distinct s, ?_, ?_⟩
  · rw [run, run, across_distinct]
  · rw [Optimizer.optimize, Optimizer.optimize, across_distinct]
    rfl

end Crossover
