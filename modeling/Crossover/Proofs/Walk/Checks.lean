/-
Crossover.Proofs.Walk.Checks — what a walk checks before it starts, and in which order.

The checks of a walk are those of its sweep (`sweepFault?`) and then that of its lengths. `across_eq`
puts them together: a walk fails with the first fault, and is otherwise the trials of all windows
of its plan. Whether two lengths are too much for 64 bits makes no difference to a series that has
fewer bars than that (`stretchesFit_iff`).
-/
import Crossover.Walk

namespace Crossover

open Text

/-! ## §1 Periods -/

/-- What is wrong with the periods of one side. -/
def sideFault? (side : Side) (periods : List Nat) : Option RunError :=
  if periods = [] then some (.noPeriods side)
  else if 0 ∈ periods then some (.badPeriod side 0)
  else none

/-- What is wrong with the periods of a sweep: the fast ones are judged first. -/
def sweepFault? (s : Sweep) : Option RunError :=
  (sideFault? .fast s.fast).or (sideFault? .slow s.slow)

theorem checkSide_eq (side : Side) (periods : List Nat) :
    Sweep.checkSide side periods =
      match sideFault? side periods with
      | some fault => .error fault
      | none => .ok () := by
  unfold Sweep.checkSide sideFault?
  by_cases hnil : periods = []
  · simp [hnil]
  · by_cases hzero : 0 ∈ periods
    · simp [hnil, hzero]
    · simp [hnil, hzero]

theorem check_eq (s : Sweep) :
    s.check =
      match sweepFault? s with
      | some fault => .error fault
      | none => .ok () := by
  unfold Sweep.check sweepFault?
  rw [checkSide_eq, checkSide_eq]
  cases sideFault? .fast s.fast with
  | some fault => rfl
  | none => rfl

/-- A sweep passes its checks exactly when each side has periods, none of them zero. -/
theorem sweepFault?_eq_none_iff (s : Sweep) :
    sweepFault? s = none ↔ (s.fast ≠ [] ∧ 0 ∉ s.fast) ∧ s.slow ≠ [] ∧ 0 ∉ s.slow := by
  have hside (side : Side) (periods : List Nat) :
      sideFault? side periods = none ↔ periods ≠ [] ∧ 0 ∉ periods := by
    unfold sideFault?
    by_cases hnil : periods = []
    · simp [hnil]
    · by_cases hzero : 0 ∈ periods
      · simp [hnil, hzero]
      · simp [hnil, hzero]
  rw [sweepFault?, Option.or_eq_none_iff, hside, hside]

/-! ## §2 Lengths -/

/-- Where 64 bits hold the length of a series, the sum of two lengths that they do not hold is one that
the series does not hold either. -/
theorem stretchesFit_iff {length : Nat} (hlength : length ≤ Natural.greatest) (train test : Nat) :
    stretchesFit length train test = true ↔ train + test ≤ length := by
  refine ⟨le_of_stretchesFit, fun h => ?_⟩
  have hsum : train + test ≤ Natural.greatest := Nat.le_trans h hlength
  unfold stretchesFit lengthSum?
  rw [if_pos hsum]
  exact decide_eq_true h

/-- The lengths of a plan are those it was made of. -/
theorem Plan.of_eq_ok {length train test : Nat} {p : Plan} (h : Plan.of length train test = .ok p) :
    p.length = length ∧ p.train = train ∧ p.test = test := by
  unfold Plan.of at h
  split at h
  · cases h
    exact ⟨rfl, rfl, rfl⟩
  · cases h

/-- There is no plan exactly when a stretch is empty or both do not fit. -/
theorem Plan.of_eq_error_iff {length train test : Nat} {e : RunError} :
    Plan.of length train test = .error e ↔
      e = .tooShort length train test ∧
        ¬ (0 < train ∧ 0 < test ∧ stretchesFit length train test = true) := by
  unfold Plan.of
  split
  · rename_i hfits
    simp [hfits]
  · rename_i hfits
    simp only [Except.error.injEq, hfits, not_false_eq_true, and_true]
    exact eq_comm

/-- Lengths that make a plan for one series make one for any other that has room for both stretches. -/
theorem Plan.of_resized {length train test : Nat} {p : Plan}
    (h : Plan.of length train test = .ok p) {other : Nat} (hroom : train + test ≤ other) :
    ∃ q, Plan.of other train test = .ok q := by
  have hfit : 0 < train ∧ 0 < test ∧ stretchesFit length train test = true := by
    refine Decidable.of_not_not fun hbad => ?_
    rw [Plan.of_eq_error_iff.2 ⟨rfl, hbad⟩] at h
    cases h
  obtain ⟨htrain, htest, hfits⟩ := hfit
  have hsum : train + test ≤ Natural.greatest := by
    unfold stretchesFit lengthSum? at hfits
    refine Nat.le_of_not_lt fun hlarge => ?_
    rw [if_neg (Nat.not_le_of_lt hlarge)] at hfits
    cases hfits
  have hother : stretchesFit other train test = true := by
    unfold stretchesFit lengthSum?
    rw [if_pos hsum]
    exact decide_eq_true hroom
  exact ⟨_, dif_pos ⟨htrain, htest, hother⟩⟩

/-! ## §3 The walk -/

/-- A walk over a plan: one trial for each window. -/
def Walk.over (series : Series) (sweep : Sweep) (p : Plan) : Walk :=
  ⟨p, p.splits.map (Trial.run series sweep)⟩

/-- A walk fails with the first fault of its sweep, then with that of its lengths. -/
theorem across_eq (series : Series) (train test : Nat) (sweep : Sweep) :
    Walk.across series train test sweep =
      match sweepFault? sweep with
      | some fault => .error fault
      | none => (Plan.of series.size train test).map (Walk.over series sweep) := by
  unfold Walk.across
  rw [check_eq]
  cases sweepFault? sweep with
  | some fault => rfl
  | none =>
    cases Plan.of series.size train test with
    | error e => rfl
    | ok p => rfl

/-- A run succeeds exactly when its sweep has no fault and its lengths make a plan, and then numbers the
trials of its windows. -/
theorem run_eq_ok_iff {series : Series} {train test : Nat} {sweep : Sweep} {cs : List Choice} :
    run series train test sweep = .ok cs ↔
      sweepFault? sweep = none ∧
        ∃ p, Plan.of series.size train test = .ok p ∧ cs = (Walk.over series sweep p).choices := by
  unfold run
  rw [across_eq]
  cases hfault : sweepFault? sweep with
  | some fault => exact iff_of_false nofun fun h => by cases h.1
  | none =>
    cases hp : Plan.of series.size train test with
    | error e => exact iff_of_false nofun fun ⟨_, _, h, _⟩ => by cases h
    | ok p =>
      constructor
      · intro h
        cases h
        exact ⟨rfl, p, rfl, rfl⟩
      · rintro ⟨-, q, hq, rfl⟩
        cases hq
        rfl

/-- A run that succeeds has a plan, and numbers the trials of its windows. -/
theorem run_eq_ok {series : Series} {train test : Nat} {sweep : Sweep} {cs : List Choice}
    (h : run series train test sweep = .ok cs) :
    ∃ p, Plan.of series.size train test = .ok p ∧ cs = (Walk.over series sweep p).choices :=
  (run_eq_ok_iff.1 h).2

end Crossover
