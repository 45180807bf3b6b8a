/-
Crossover.Numeric.Rounding — rounding a quotient of natural numbers to the nearest whole number.

`roundDiv num den` is the whole number nearest to `num / den`, and the even one of two that are
equally near.
-/
namespace Crossover.Numeric

/-- The whole number nearest to `num / den`; an exact half goes to the even neighbour. -/
def roundDiv (num den : Nat) : Nat :=
  let quotient := num / den
  let rest := num % den
  if 2 * rest < den then quotient
  else if den < 2 * rest then quotient + 1
  else if quotient % 2 = 0 then quotient
  else quotient + 1

def pow2 (k : Nat) : Nat :=
  Nat.pow 2 k

def pow10 (k : Nat) : Nat :=
  Nat.pow 10 k

/-- A non-negative fraction, numerator over denominator. -/
structure Ratio where
  num : Nat
  den : Nat
  deriving Repr, DecidableEq

namespace Ratio

def lt (r s : Ratio) : Bool :=
  r.num * s.den < s.num * r.den

def le (r s : Ratio) : Bool :=
  r.num * s.den ≤ s.num * r.den

def scaled2 (n : Nat) (k : Int) : Ratio :=
  if 0 ≤ k then ⟨n * pow2 k.toNat, 1⟩ else ⟨n, pow2 (-k).toNat⟩

def scaled10 (n : Nat) (k : Int) : Ratio :=
  if 0 ≤ k then ⟨n * pow10 k.toNat, 1⟩ else ⟨n, pow10 (-k).toNat⟩

/-- The fraction measured in units of ten to the power `k`. -/
def perPow10 (r : Ratio) (k : Int) : Ratio :=
  if 0 ≤ k then ⟨r.num, r.den * pow10 k.toNat⟩ else ⟨r.num * pow10 (-k).toNat, r.den⟩

/-- The fraction measured in units of two to the power `k`. -/
def perPow2 (r : Ratio) (k : Int) : Ratio :=
  if 0 ≤ k then ⟨r.num, r.den * pow2 k.toNat⟩ else ⟨r.num * pow2 (-k).toNat, r.den⟩

def round (r : Ratio) : Nat :=
  roundDiv r.num r.den

end Ratio

end Crossover.Numeric
