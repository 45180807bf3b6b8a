/-
Crossover.Proofs.Text.Digits — numbers written at a width, and what scanners take of them.

A number that is filled up with zeros keeps its value (`value_padded`) and has exactly the width if it is
small enough (`length_padded`). A scanner takes a run of digits off a text where the run ends, either
because nothing that could go on with it follows (`Stops`) or because it is as long as a run may be.

  §1 Values    — zeros on the left, and zeros on the right.
  §2 Widths    — how long a number is.
  §3 Scanning  — runs of digits at the head of a text.
  §4 Blanks    — digits are no white space, and trimming leaves what has none at its ends.
-/
import Mathlib
import Crossover.Text.Blank
import Crossover.Text.Digits

namespace Crossover.Text

/-- A character of some class is none that does not belong to it. -/
theorem ne_of_class {p : Char → Bool} {c d : Char} (hc : p c = true) (hd : p d = false) : c ≠ d := by
  rintro rfl
  rw [hc] at hd
  cases hd

namespace Digits

/-! ## §1 Values -/

/-- Digits behind a number move it up by as many places. -/
theorem value_append (front back : List Char) :
    value (front ++ back) = value front * 10 ^ back.length + value back := by
  induction back using List.reverseRecOn with
  | nil =>
    have hnil : value [] = 0 := rfl
    rw [List.append_nil, hnil, List.length_nil, Nat.pow_zero, Nat.mul_one, Nat.add_zero]
  | append_singleton back c ih =>
    rw [← List.append_assoc, value_append_digit, value_append_digit, ih, List.length_append,
      List.length_singleton, Nat.pow_succ]
    ring

theorem value_replicate_zero (count : Nat) : value (List.replicate count '0') = 0 := by
  have hzero : digit '0' = 0 := rfl
  induction count with
  | zero => rfl
  | succ count ih => rw [List.replicate_succ', value_append_digit, ih, hzero]

theorem value_append_zeros (cs : List Char) (count : Nat) :
    value (cs ++ List.replicate count '0') = value cs * 10 ^ count := by
  rw [value_append, value_replicate_zero, List.length_replicate, Nat.add_zero]

/-- Zeros in front do not count. -/
theorem value_zeros_append (count : Nat) (cs : List Char) :
    value (List.replicate count '0' ++ cs) = value cs := by
  rw [value_append, value_replicate_zero, Nat.zero_mul, Nat.zero_add]

theorem digit_lt {c : Char} (h : c.isDigit = true) : digit c < 10 := by
  simp only [Char.isDigit, Bool.and_eq_true, decide_eq_true_eq, UInt32.le_iff_toNat_le] at h
  have htop : c.toNat ≤ 57 := h.2
  unfold digit
  omega

/-- A run of digits stands for a number that has no more places than it has digits. -/
theorem value_lt {cs : List Char} (h : ∀ c ∈ cs, c.isDigit = true) : value cs < 10 ^ cs.length := by
  induction cs using List.reverseRecOn with
  | nil => decide
  | append_singleton cs c ih =>
    have hfront := ih fun d hd => h d (List.mem_append_left [c] hd)
    have hlast := digit_lt (h c (List.mem_append_right cs List.mem_cons_self))
    rw [value_append_digit, List.length_append, List.length_singleton, Nat.pow_succ]
    omega

theorem value_padded (width n : Nat) : value (padded width n) = n := by
  rw [padded, List.leftpad, value_zeros_append, value_ofNat]

/-- A number is written without a zero in front of other digits. -/
theorem ofNat_cases (n : Nat) :
    ofNat n = ['0'] ∨ ∃ c rest, ofNat n = c :: rest ∧ c ≠ '0' ∧ c.isDigit = true := by
  by_cases hzero : n = 0
  · left
    rw [hzero, ofNat]
    rfl
  · right
    have hfirst : ∀ n, n ≠ 0 → n < 10 → ofDigit n ≠ '0' := by
      intro n hne hsmall hzero
      have hdigit := digit_ofDigit n
      rw [hzero, Nat.mod_eq_of_lt hsmall] at hdigit
      exact hne hdigit.symm
    induction n using Nat.strongRecOn with
    | ind n ih =>
      rw [ofNat]
      split
      · rename_i hsmall
        exact ⟨_, [], rfl, hfirst n hzero hsmall, isDigit_ofDigit n⟩
      · obtain ⟨c, rest, hchars, hc⟩ := ih (n / 10) (by omega) (by omega)
        exact ⟨c, rest ++ [ofDigit n], by rw [hchars, List.cons_append], hc⟩

/-! ## §2 Widths -/

theorem length_ofNat_le {n width : Nat} (hwidth : 0 < width) (h : n < 10 ^ width) :
    (ofNat n).length ≤ width := by
  induction width generalizing n with
  | zero => contradiction
  | succ width ih =>
    rw [ofNat]
    split
    · exact Nat.succ_le_of_lt hwidth
    · rename_i hlarge
      have hrest : n / 10 < 10 ^ width := by
        rw [Nat.pow_succ] at h
        omega
      have hpos : 0 < width := by
        refine Nat.pos_of_ne_zero fun hzero => ?_
        rw [hzero, Nat.pow_zero] at hrest
        omega
      have := ih hpos hrest
      rw [List.length_append, List.length_singleton]
      omega

/-- A number that is small enough is written at exactly its width. -/
theorem length_padded {n width : Nat} (hwidth : 0 < width) (h : n < 10 ^ width) :
    (padded width n).length = width := by
  have := length_ofNat_le hwidth h
  rw [padded, List.leftpad, List.length_append, List.length_replicate]
  omega

theorem isDigit_of_mem_padded (width n : Nat) : ∀ c ∈ padded width n, c.isDigit = true := by
  intro c hc
  rw [padded, List.leftpad, List.mem_append] at hc
  rcases hc with hzero | hdigit
  · rw [List.eq_of_mem_replicate hzero]
    decide
  · exact isDigit_of_mem_ofNat n c hdigit

theorem padded_ne_nil (width n : Nat) : padded width n ≠ [] := by
  intro hnil
  rw [padded, List.leftpad, List.append_eq_nil_iff] at hnil
  exact ofNat_ne_nil n hnil.2

/-- A number that has been filled up starts with a digit. -/
theorem padded_eq_cons (width n : Nat) : ∃ c rest, padded width n = c :: rest ∧ c.isDigit = true := by
  cases hchars : padded width n with
  | nil => exact absurd hchars (padded_ne_nil width n)
  | cons c rest =>
    exact ⟨c, rest, rfl, isDigit_of_mem_padded width n c (hchars ▸ List.mem_cons_self)⟩

/-- A number that has been filled up ends in a digit. -/
theorem padded_eq_concat (width n : Nat) :
    ∃ front c, padded width n = front ++ [c] ∧ c.isDigit = true := by
  refine ⟨_, _, (List.dropLast_concat_getLast (padded_ne_nil width n)).symm, ?_⟩
  exact isDigit_of_mem_padded width n _ (List.getLast_mem (padded_ne_nil width n))

/-! ## §3 Scanning -/

/-- No run of digits goes on at the head of a text. -/
def Stops (cs : List Char) : Prop :=
  ∀ c ∈ cs.head?, c.isDigit = false

theorem stops_nil : Stops [] := nofun

theorem stops_cons {c : Char} (h : c.isDigit = false) (rest : List Char) : Stops (c :: rest) := by
  intro d hd
  cases hd
  exact h

theorem takeWhile_run {run rest : List Char} (h : ∀ c ∈ run, c.isDigit = true) (hrest : Stops rest) :
    (run ++ rest).takeWhile Char.isDigit = run := by
  rw [List.takeWhile_append_of_pos h]
  cases rest with
  | nil => simp
  | cons c more =>
    have hc : c.isDigit = false := hrest c rfl
    simp [hc]

/-- A run of digits is taken as a whole if it is as long as a run may be, or stops before. -/
theorem takeAtMost_run {most : Nat} {run rest : List Char} (h : ∀ c ∈ run, c.isDigit = true)
    (hmost : run.length ≤ most) (hrest : run.length = most ∨ Stops rest) :
    takeAtMost most (run ++ rest) = (run, rest) := by
  have hrun : ((run ++ rest).take most).takeWhile Char.isDigit = run := by
    rcases hrest with hfull | hstops
    · rw [← hfull, List.take_left]
      simpa using takeWhile_run h stops_nil
    · have hcut : Stops (rest.take (most - run.length)) := by
        intro c hc
        rw [List.head?_take] at hc
        split at hc
        · cases hc
        · exact hstops c hc
      rw [List.take_append, List.take_of_length_le hmost, takeWhile_run h hcut]
  unfold takeAtMost
  simp only [hrun, List.drop_left]

theorem takeAll_run {run rest : List Char} (h : ∀ c ∈ run, c.isDigit = true) (hrest : Stops rest) :
    takeAll (run ++ rest) = (run, rest) := by
  have hdrop : (run ++ rest).dropWhile Char.isDigit = rest := by
    rw [List.dropWhile_append_of_pos h]
    cases rest with
    | nil => rfl
    | cons c more =>
      have hc : c.isDigit = false := hrest c rfl
      simp [hc]
  rw [takeAll, takeWhile_run h hrest, hdrop]

end Digits

/-! ## §4 Blanks -/

/-- No digit is white space. -/
theorem isBlank_of_isDigit {c : Char} (h : c.isDigit = true) : isBlank c = false := by
  have hblanks : blanks.all (fun b => !b.isDigit) = true := by decide
  cases hblank : isBlank c with
  | false => rfl
  | true =>
    rw [isBlank, List.contains_iff_mem] at hblank
    have hother := List.all_eq_true.1 hblanks c hblank
    rw [h] at hother
    cases hother

theorem skipBlanks_cons {c : Char} (h : isBlank c = false) (rest : List Char) :
    skipBlanks (c :: rest) = c :: rest := by
  simp [skipBlanks, h]

/-- A text without white space at either end is left as it is. -/
theorem trim_eq_self {cs : List Char} {first last : Char} {front back : List Char}
    (hfront : cs = first :: back) (hback : cs = front ++ [last]) (hfirst : isBlank first = false)
    (hlast : isBlank last = false) : trim cs = cs := by
  have hskip : skipBlanks cs = cs := by
    rw [hfront]
    exact skipBlanks_cons hfirst back
  have hreverse : skipBlanks cs.reverse = cs.reverse := by
    rw [hback, List.reverse_append]
    exact skipBlanks_cons hlast _
  rw [trim, hskip, hreverse, List.reverse_reverse]

end Crossover.Text
