/-
Crossover.Proofs.Text.Natural — which texts are natural numbers of 64 bits, and what is wrong with the others.

A number is a run of digits after at most one plus sign. Its digits are read from left to right, and what has
been read is always the value of the digits so far. So a text is read exactly if it has digits, all of them are
digits and their value fits (`read_eq_ok_iff`), and else the first character at which either fails says what is
wrong (`read_eq_error_iff`).

  §1 Digits — digits after other digits.
  §2 Texts  — a sign and digits.
-/
import Crossover.Proofs.Text.Digits
import Crossover.Text.Natural

namespace Crossover.Text.Natural

/-! ## §1 Digits -/

/-- After some digits others are read as the value of all of them, as long as it fits. -/
theorem extend_run {run : List Char} (hdigits : ∀ c ∈ run, c.isDigit = true) (front rest : List Char)
    (hfits : Digits.value (front ++ run) ≤ greatest) :
    extend (Digits.value front) (run ++ rest) = extend (Digits.value (front ++ run)) rest := by
  have hvalue : Digits.value (front ++ run) =
      run.foldl (fun n c => 10 * n + Digits.digit c) (Digits.value front) := List.foldl_append
  rw [hvalue] at hfits ⊢
  exact extend_append hdigits hfits rest

/-- What is wrong with one more character after some digits: it is none, or the number becomes too large. -/
inductive FaultAt (front : List Char) (c : Char) : NaturalFault → Prop where
  | badDigit (h : c.isDigit = false) : FaultAt front c .badDigit
  | tooLarge (h : c.isDigit = true) (hlarge : greatest < Digits.value (front ++ [c])) :
    FaultAt front c .tooLarge

theorem step_eq_error_iff {front : List Char} {c : Char} {fault : NaturalFault} :
    step (Digits.value front) c = .error fault ↔ FaultAt front c fault := by
  rw [step, ← Digits.value_append_digit]
  constructor
  · intro h
    split at h
    · rename_i hdigit
      cases h
      exact .badDigit (by simpa using hdigit)
    · rename_i hdigit
      split at h
      · rename_i hlarge
        cases h
        exact .tooLarge (by simpa using hdigit) hlarge
      · cases h
  · rintro (hdigit | ⟨hdigit, hlarge⟩)
    · simp [hdigit]
    · simp [hdigit, hlarge]

theorem step_eq_ok_iff {front : List Char} {c : Char} {n : Nat} :
    step (Digits.value front) c = .ok n ↔
      c.isDigit = true ∧ Digits.value (front ++ [c]) ≤ greatest ∧ n = Digits.value (front ++ [c]) := by
  rw [step, ← Digits.value_append_digit]
  constructor
  · intro h
    split at h
    · cases h
    · rename_i hdigit
      split at h
      · cases h
      · rename_i hlarge
        cases h
        exact ⟨by simpa using hdigit, Nat.not_lt.1 hlarge, rfl⟩
  · rintro ⟨hdigit, hfits, rfl⟩
    simp [hdigit, Nat.not_lt.2 hfits]

theorem extend_eq_ok_iff {front rest : List Char} (hfront : Digits.value front ≤ greatest) {n : Nat} :
    extend (Digits.value front) rest = .ok n ↔
      (∀ c ∈ rest, c.isDigit = true) ∧ Digits.value (front ++ rest) = n ∧ n ≤ greatest := by
  constructor
  · intro h
    induction rest generalizing front with
    | nil =>
      cases h
      exact ⟨by simp, by rw [List.append_nil], hfront⟩
    | cons c rest ih =>
      rw [extend] at h
      split at h
      · cases h
      · rename_i m hstep
        obtain ⟨hc, hfits, rfl⟩ := step_eq_ok_iff.1 hstep
        obtain ⟨hrest, hvalue, hn⟩ := ih hfits h
        rw [List.append_assoc, List.singleton_append] at hvalue
        exact ⟨List.forall_mem_cons.2 ⟨hc, hrest⟩, hvalue, hn⟩
  · rintro ⟨hdigits, rfl, hfits⟩
    have hread := extend_run hdigits front [] hfits
    rwa [List.append_nil, extend] at hread

/-- The first character at which something is wrong says what it is. -/
theorem extend_eq_error_iff {front rest : List Char} (hfront : Digits.value front ≤ greatest)
    {fault : NaturalFault} :
    extend (Digits.value front) rest = .error fault ↔
      ∃ run c back, rest = run ++ c :: back ∧ (∀ d ∈ run, d.isDigit = true) ∧
        Digits.value (front ++ run) ≤ greatest ∧ FaultAt (front ++ run) c fault := by
  constructor
  · intro h
    induction rest generalizing front with
    | nil => cases h
    | cons c rest ih =>
      rw [extend] at h
      split at h
      · rename_i hstep
        cases h
        refine ⟨[], c, rest, rfl, by simp, ?_, ?_⟩
        · rwa [List.append_nil]
        · rw [List.append_nil]
          exact step_eq_error_iff.1 hstep
      · rename_i m hstep
        obtain ⟨hc, hfits, rfl⟩ := step_eq_ok_iff.1 hstep
        obtain ⟨run, d, back, rfl, hrun, hvalue, hfault⟩ := ih hfits h
        rw [List.append_assoc, List.singleton_append] at hvalue hfault
        exact ⟨c :: run, d, back, rfl, List.forall_mem_cons.2 ⟨hc, hrun⟩, hvalue, hfault⟩
  · rintro ⟨run, c, back, rfl, hrun, hvalue, hfault⟩
    rw [extend_run hrun front (c :: back) hvalue, extend, step_eq_error_iff.2 hfault]

/-! ## §2 Texts -/

/-- What stands after the plus sign of a text, if it has one. -/
def unsigned : List Char → List Char
  | '+' :: rest => rest
  | cs => cs

theorem unsigned_of_digit {c : Char} (h : c.isDigit = true) (rest : List Char) :
    unsigned (c :: rest) = c :: rest := by
  have hplus : c ≠ '+' := ne_of_class h rfl
  simp [unsigned, hplus]

theorem read_eq (cs : List Char) :
    read cs = if unsigned cs = [] then .error .badDigit else extend (Digits.value []) (unsigned cs) := by
  have hzero : Digits.value [] = 0 := rfl
  rw [hzero]
  cases cs with
  | nil => rfl
  | cons c rest =>
    by_cases hplus : c = '+'
    · subst hplus
      cases rest with
      | nil => rfl
      | cons d rest => rfl
    · have hunsigned : unsigned (c :: rest) = c :: rest := by simp [unsigned, hplus]
      rw [hunsigned, if_neg (List.cons_ne_nil c rest), read]
      · rintro ⟨⟩
      · rintro ⟨⟩
        exact hplus rfl
      · rintro digits ⟨⟩
        exact hplus rfl

/-- One or more digits, with a plus sign in front of them or not, that stand for a number of 64 bits. -/
def Says (cs : List Char) (n : Nat) : Prop :=
  ∃ digits, (cs = digits ∨ cs = '+' :: digits) ∧ digits ≠ [] ∧ (∀ c ∈ digits, c.isDigit = true) ∧
    Digits.value digits = n ∧ n ≤ greatest

/-- What is wrong with a text: it has no digits, or what its first character that does not go on with a number
of 64 bits gives as the reason. -/
inductive FaultOf (cs : List Char) : NaturalFault → Prop where
  | noDigits (h : unsigned cs = []) : FaultOf cs .badDigit
  | character (run : List Char) (c : Char) (back : List Char) (hcs : unsigned cs = run ++ c :: back)
    (hrun : ∀ d ∈ run, d.isDigit = true) (hfits : Digits.value run ≤ greatest) {fault : NaturalFault}
    (hfault : FaultAt run c fault) : FaultOf cs fault

/-- The texts of numbers are those that are read. -/
theorem read_eq_ok_iff {cs : List Char} {n : Nat} : read cs = .ok n ↔ Says cs n := by
  have hextend := @extend_eq_ok_iff [] (unsigned cs) (Nat.zero_le greatest) n
  rw [List.nil_append] at hextend
  rw [read_eq]
  constructor
  · intro h
    split at h
    · cases h
    · rename_i hne
      refine ⟨unsigned cs, ?_, hne, hextend.1 h⟩
      unfold unsigned
      split
      · exact .inr rfl
      · exact .inl rfl
  · rintro ⟨digits, hcs, hne, hdigits, hvalue, hn⟩
    have hunsigned : unsigned cs = digits := by
      rcases hcs with rfl | rfl
      · obtain ⟨c, rest, rfl⟩ := List.exists_cons_of_ne_nil hne
        exact unsigned_of_digit (hdigits c List.mem_cons_self) rest
      · rfl
    rw [hunsigned] at hextend ⊢
    rw [if_neg hne]
    exact hextend.2 ⟨hdigits, hvalue, hn⟩

/-- A text that is not read has just this wrong with it. -/
theorem read_eq_error_iff {cs : List Char} {fault : NaturalFault} :
    read cs = .error fault ↔ FaultOf cs fault := by
  have hextend := @extend_eq_error_iff [] (unsigned cs) (Nat.zero_le greatest) fault
  simp only [List.nil_append] at hextend
  rw [read_eq]
  constructor
  · intro h
    split at h
    · rename_i hnil
      cases h
      exact .noDigits hnil
    · obtain ⟨run, c, back, hcs, hrun, hfits, hfault⟩ := hextend.1 h
      exact .character run c back hcs hrun hfits hfault
  · rintro (hnil | ⟨run, c, back, hcs, hrun, hfits, hfault⟩)
    · rw [if_pos hnil]
    · rw [if_neg (by simp [hcs])]
      exact hextend.2 ⟨run, c, back, hcs, hrun, hfits, hfault⟩

end Crossover.Text.Natural
