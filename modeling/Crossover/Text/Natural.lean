/-
Crossover.Text.Natural — reading a natural number that fits 64 bits.

A number is a run of digits, leading zeros allowed, after at most one plus sign. What is wrong with a
text is what is wrong at the first character at which anything is.
-/
import Crossover.Text.Digits

namespace Crossover.Text

/-- Why a text is no natural number of 64 bits. -/
inductive NaturalFault where
  | badDigit
  | tooLarge
  deriving DecidableEq, Repr

def NaturalFault.message : NaturalFault → String
  | badDigit => "invalid digit found in string"
  | tooLarge => "number too large to fit in target type"

namespace Natural

/-- The greatest number of 64 bits. -/
def greatest : Nat := 18446744073709551615

/-- The number that one more digit makes of a number. -/
def step (n : Nat) (c : Char) : Except NaturalFault Nat :=
  if !c.isDigit then .error .badDigit
  else if greatest < 10 * n + Digits.digit c then .error .tooLarge
  else .ok (10 * n + Digits.digit c)

/-- The number that some more digits make of a number. -/
def extend (n : Nat) : List Char → Except NaturalFault Nat
  | [] => .ok n
  | c :: cs =>
    match step n c with
    | .error fault => .error fault
    | .ok m => extend m cs

def read : List Char → Except NaturalFault Nat
  | [] => .error .badDigit
  | ['+'] => .error .badDigit
  | '+' :: digits => extend 0 digits
  | digits => extend 0 digits

/-- More digits never make a number smaller. -/
theorem le_foldl (cs : List Char) (n : Nat) :
    n ≤ cs.foldl (fun n c => 10 * n + Digits.digit c) n := by
  induction cs generalizing n with
  | nil => exact Nat.le_refl n
  | cons c cs ih => exact Nat.le_trans (by omega) (ih (10 * n + Digits.digit c))

/-- More digits are read as their value, as long as it fits, whatever follows them. -/
theorem extend_append {run : List Char} {n : Nat} (hd : ∀ c ∈ run, c.isDigit = true)
    (hv : run.foldl (fun n c => 10 * n + Digits.digit c) n ≤ greatest) (rest : List Char) :
    extend n (run ++ rest) = extend (run.foldl (fun n c => 10 * n + Digits.digit c) n) rest := by
  induction run generalizing n with
  | nil => rfl
  | cons c run ih =>
    have hle : 10 * n + Digits.digit c ≤ greatest := by
      refine Nat.le_trans ?_ hv
      exact le_foldl run _
    have hc : c.isDigit = true := hd c (by simp)
    rw [List.cons_append, extend, step, hc, if_neg (by simp), if_neg (by omega)]
    exact ih (fun d hd' => hd d (by simp [hd'])) hv

/-- A text of digits is read without a sign. -/
theorem read_of_digits {cs : List Char} (hne : cs ≠ []) (hd : ∀ c ∈ cs, c.isDigit = true) :
    read cs = extend 0 cs := by
  unfold read
  split
  · contradiction
  · exact absurd (hd '+' (by simp)) (by decide)
  · exact absurd (hd '+' (by simp)) (by decide)
  · rfl

/-- What is written is read back. -/
theorem read_ofNat {n : Nat} (h : n ≤ greatest) : read (Digits.ofNat n) = .ok n := by
  have hv : (Digits.ofNat n).foldl (fun n c => 10 * n + Digits.digit c) 0 = n :=
    Digits.value_ofNat n
  have hread := extend_append (Digits.isDigit_of_mem_ofNat n) (Nat.le_trans (Nat.le_of_eq hv) h) []
  rw [List.append_nil, hv] at hread
  rw [read_of_digits (Digits.ofNat_ne_nil n) (Digits.isDigit_of_mem_ofNat n), hread, extend]

end Natural

end Crossover.Text
