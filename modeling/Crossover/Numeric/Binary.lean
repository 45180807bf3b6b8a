/-
Crossover.Numeric.Binary — binary floating-point patterns as exact fractions.

A non-negative number of a binary format is its bit pattern without the sign bit, a natural number.
Patterns are ordered as the numbers they stand for. `Format.decode` says which number a pattern
stands for, `Format.nearest` which pattern is nearest to a fraction, both in whole numbers only.
-/
import Crossover.Numeric.Rounding

namespace Crossover.Numeric

/-! ## 1. Formats -/

structure Format where
  /-- Bits of a significand, its leading one included. -/
  width : Nat
  /-- The least positive number is two to the power `-depth`. -/
  depth : Nat
  /-- The exponent field of the infinities. -/
  top : Nat

namespace Format

def double : Format := ⟨53, 1074, 2047⟩

def single : Format := ⟨24, 149, 255⟩

/-- How many patterns share one exponent field. -/
def span (f : Format) : Nat :=
  pow2 (f.width - 1)

def infinity (f : Format) : Nat :=
  f.top * f.span

end Format

/-! ## 2. The number of a pattern -/

/-- The number `significand` times two to the power `exponent`. -/
structure Dyadic where
  significand : Nat
  exponent : Int
  deriving Repr, DecidableEq

namespace Dyadic

def ratio (d : Dyadic) : Ratio :=
  Ratio.scaled2 d.significand d.exponent

end Dyadic

/-- The number that a finite pattern stands for. -/
def Format.decode (f : Format) (pattern : Nat) : Dyadic :=
  let field := pattern / f.span
  let rest := pattern % f.span
  if field = 0 then ⟨rest, -(f.depth : Int)⟩
  else ⟨f.span + rest, (field : Int) - 1 - f.depth⟩

/-! ## 3. The nearest pattern -/

/-- The `k` such that a positive fraction is at least two to the power `k` and below twice that. -/
def Ratio.leadingBit (r : Ratio) : Int :=
  let k : Int := (r.num.log2 : Int) - r.den.log2
  if (Ratio.scaled2 1 k).le r then k else k - 1

/-- The pattern nearest to a fraction, an exact half going to the even pattern; infinity from the
middle between the greatest number and the next power of two on. The significand is rounded in the
unit of the fraction's own binade, and a carry into the next binade adds one to the exponent field
by itself. -/
def Format.nearest (f : Format) (r : Ratio) : Nat :=
  if r.num = 0 then 0
  else
    let fine := r.leadingBit - ((f.width : Int) - 1)
    let unit := if fine < -(f.depth : Int) then -(f.depth : Int) else fine
    let pattern := (unit + f.depth).toNat * f.span + (r.perPow2 unit).round
    if f.infinity ≤ pattern then f.infinity else pattern

/-! ## 4. Floats -/

/-- The weight of a double's sign bit. -/
def signBit : Nat := 9223372036854775808

/-- A double's pattern without its sign bit. -/
def patternOf (x : Float) : Nat :=
  x.toBits.toNat % signBit

/-- Whether a double carries a minus sign; minus zero does. -/
def isNegative (x : Float) : Bool :=
  signBit ≤ x.toBits.toNat

/-- The double of a sign and a pattern. -/
def ofPattern (negative : Bool) (pattern : Nat) : Float :=
  Float.ofBits (UInt64.ofNat (if negative then signBit + pattern else pattern))

def nearestFloat (negative : Bool) (r : Ratio) : Float :=
  ofPattern negative (Format.double.nearest r)

def floatOfInt (n : Int) : Float :=
  nearestFloat (n < 0) ⟨n.natAbs, 1⟩

/-- The number rounded to single precision and widened again. -/
def roundToSingle (x : Float) : Float :=
  if x.isFinite then
    let pattern := Format.single.nearest (Format.double.decode (patternOf x)).ratio
    if pattern = Format.single.infinity then ofPattern (isNegative x) Format.double.infinity
    else nearestFloat (isNegative x) (Format.single.decode pattern).ratio
  else x

end Crossover.Numeric
