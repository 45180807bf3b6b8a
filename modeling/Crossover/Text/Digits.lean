/-
Crossover.Text.Digits — natural numbers written in decimal.

`Digits.ofNat` writes a number and `Digits.value` reads a run of digits back; leading zeros are
read and never written. `Digits.value_ofNat` says that reading undoes writing.
-/
namespace Crossover.Text.Digits

/-! ## 1. One digit -/

/-- The character of a number below ten. -/
def ofDigit (n : Nat) : Char :=
  Char.ofNat (48 + n % 10)

/-- What a digit character counts. -/
def digit (c : Char) : Nat :=
  c.toNat - 48

theorem digit_ofDigit (n : Nat) : digit (ofDigit n) = n % 10 := by
  have h : n % 10 < 10 := Nat.mod_lt _ (by decide)
  revert h
  unfold digit ofDigit
  generalize n % 10 = k
  intro h
  have : k = 0 ∨ k = 1 ∨ k = 2 ∨ k = 3 ∨ k = 4 ∨ k = 5 ∨ k = 6 ∨ k = 7 ∨ k = 8 ∨ k = 9 := by omega
  rcases this with h | h | h | h | h | h | h | h | h | h <;> subst h <;> rfl

/-! ## 2. A run of digits -/

/-- The value of a run of digits, most significant first. -/
def value (cs : List Char) : Nat :=
  cs.foldl (fun n c => 10 * n + digit c) 0

/-- The digits of a number, most significant first; zero is written as one digit. -/
def ofNat (n : Nat) : List Char :=
  if n < 10 then [ofDigit n] else ofNat (n / 10) ++ [ofDigit n]
termination_by n

/-- The digits of a number, filled up with zeros on the left to `width` places. -/
def padded (width n : Nat) : List Char :=
  (ofNat n).leftpad width '0'

theorem value_append_digit (cs : List Char) (c : Char) :
    value (cs ++ [c]) = 10 * value cs + digit c := by
  simp [value]

theorem value_ofNat (n : Nat) : value (ofNat n) = n := by
  induction n using Nat.strongRecOn with
  | ind n ih =>
    rw [ofNat]
    split
    · simp [value, digit_ofDigit]
      omega
    · rw [value_append_digit, ih (n / 10) (by omega), digit_ofDigit]
      omega

theorem isDigit_ofDigit (n : Nat) : (ofDigit n).isDigit = true := by
  have h : n % 10 < 10 := Nat.mod_lt _ (by decide)
  revert h
  unfold ofDigit
  generalize n % 10 = k
  intro h
  have : k = 0 ∨ k = 1 ∨ k = 2 ∨ k = 3 ∨ k = 4 ∨ k = 5 ∨ k = 6 ∨ k = 7 ∨ k = 8 ∨ k = 9 := by omega
  rcases this with h | h | h | h | h | h | h | h | h | h <;> subst h <;> rfl

/-- A number is written with digits alone. -/
theorem isDigit_of_mem_ofNat (n : Nat) : ∀ c ∈ ofNat n, c.isDigit = true := by
  induction n using Nat.strongRecOn with
  | ind n ih =>
    intro c hc
    rw [ofNat] at hc
    split at hc
    · rw [List.mem_singleton.1 hc]
      exact isDigit_ofDigit n
    · rcases List.mem_append.1 hc with hc | hc
      · exact ih (n / 10) (by omega) c hc
      · rw [List.mem_singleton.1 hc]
        exact isDigit_ofDigit n

theorem ofNat_ne_nil (n : Nat) : ofNat n ≠ [] := by
  rw [ofNat]
  split <;> simp

/-! ## 3. Scanning -/

/-- The longest run of at most `most` digits at the head, and what follows it. -/
def takeAtMost (most : Nat) (cs : List Char) : List Char × List Char :=
  let run := (cs.take most).takeWhile Char.isDigit
  (run, cs.drop run.length)

/-- The longest run of digits at the head, and what follows it. -/
def takeAll (cs : List Char) : List Char × List Char :=
  (cs.takeWhile Char.isDigit, cs.dropWhile Char.isDigit)

/-- How many digits a number has; zero has none. -/
def count (n : Nat) : Nat :=
  if n = 0 then 0 else (ofNat n).length

def text (n : Nat) : String :=
  String.ofList (ofNat n)

/-- The text of an integer, with a minus sign below zero. -/
def textOfInt (n : Int) : String :=
  if n < 0 then "-" ++ text n.natAbs else text n.natAbs

end Crossover.Text.Digits
