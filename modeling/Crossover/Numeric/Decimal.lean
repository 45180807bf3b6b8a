/-
Crossover.Numeric.Decimal — decimals: the shortest one that reads back as a double, and reading.

`shortest` goes through the decimal grids from coarse to fine and takes the first that has a point
among the numbers that round to the given double, the nearer one if it has two. `Numeral.read?`
reads decimal text, and `Numeral.toFloat` rounds it to the nearest double. Both sides work on exact
fractions.
-/
import Crossover.Text.Digits
import Crossover.Numeric.Binary

namespace Crossover.Numeric

open Crossover.Text

/-! ## 1. Decimals -/

/-- The number `significand` times ten to the power `exponent`. -/
structure Decimal where
  significand : Nat
  exponent : Int
  deriving Repr, DecidableEq

namespace Decimal

def ratio (d : Decimal) : Ratio :=
  Ratio.scaled10 d.significand d.exponent

/-- The `k` such that the number is a fraction `0.d₁d₂…` with `d₁` not zero, times ten to the
power `k`. -/
def magnitude (d : Decimal) : Int :=
  (Digits.count d.significand : Int) + d.exponent

/-- The same number without zeros at the end of its significand. -/
def strip (d : Decimal) : Decimal :=
  if h : d.significand ≠ 0 ∧ d.significand % 10 = 0 then
    strip ⟨d.significand / 10, d.exponent + 1⟩
  else d
termination_by d.significand
decreasing_by exact Nat.div_lt_self (by omega) (by decide)

end Decimal

/-- The `k` such that a positive fraction is below ten to the power `k` and at least a tenth of
that. -/
def Ratio.decimalMagnitude (r : Ratio) : Int :=
  if r.den ≤ r.num then (Digits.count (r.num / r.den) : Int)
  else 1 - (Digits.count ((r.den - 1) / r.num) : Int)

/-! ## 2. The numbers that round to a pattern -/

/-- An interval of fractions; both ends belong to it or neither. -/
structure Interval where
  low : Ratio
  high : Ratio
  closed : Bool

def Interval.contains (i : Interval) (r : Ratio) : Bool :=
  if i.closed then i.low.le r && r.le i.high else i.low.lt r && r.lt i.high

/-- The fractions whose nearest pattern is the given one. Half a unit on either side, a quarter
below where a binade begins; the ends belong to it when the significand is even. -/
def Format.preimage (f : Format) (pattern : Nat) : Interval :=
  let d := f.decode pattern
  let below := if d.significand = f.span ∧ -(f.depth : Int) < d.exponent then 1 else 2
  { low := Ratio.scaled2 (4 * d.significand - below) (d.exponent - 2)
    high := Ratio.scaled2 (4 * d.significand + 2) (d.exponent - 2)
    closed := d.significand % 2 = 0 }

/-! ## 3. The shortest decimal -/

/-- Of the two neighbours of `r` among the multiples of ten to the power `k`, the one inside the
interval; the nearer one if both are, and the even one if they are equally near. -/
def Interval.neighbour? (i : Interval) (r : Ratio) (k : Int) : Option Decimal :=
  let scaled := r.perPow10 k
  let below := scaled.num / scaled.den
  let hasBelow := i.contains (Ratio.scaled10 below k)
  let hasAbove := i.contains (Ratio.scaled10 (below + 1) k)
  if hasBelow && hasAbove then some ⟨scaled.round, k⟩
  else if hasBelow then some ⟨below, k⟩
  else if hasAbove then some ⟨below + 1, k⟩
  else none

/-- The decimal with the fewest digits, and among those the nearest, that rounds to the double of
a finite pattern other than zero. Seventeen digits always suffice. -/
def shortest (pattern : Nat) : Decimal :=
  let r := (Format.double.decode pattern).ratio
  let i := Format.double.preimage pattern
  let k := r.decimalMagnitude
  match (List.range 17).findSome? fun (n : Nat) => i.neighbour? r (k - n - 1) with
  | some d => d.strip
  | none => ⟨0, 0⟩

/-! ## 4. Reading decimal text -/

/-- A decimal with a sign, as it is written. -/
structure Numeral where
  negative : Bool
  decimal : Decimal
  deriving Repr, DecidableEq

namespace Numeral

/-- The optional sign of a text, true for minus, and what follows it. -/
def sign : List Char → Bool × List Char
  | '-' :: rest => (true, rest)
  | '+' :: rest => (false, rest)
  | cs => (false, cs)

/-- The exponent at the end of a numeral: nothing, or `e`, an optional sign and digits. -/
def exponent? : List Char → Option Int
  | [] => some 0
  | c :: rest =>
    if c = 'e' ∨ c = 'E' then
      let (negative, digits) := sign rest
      if digits.isEmpty || !digits.all Char.isDigit then none
      else
        let n : Int := Digits.value digits
        some (if negative then -n else n)
    else none

/-- Reads a whole text as a numeral: an optional sign, digits with at most one point among, before
or after them, and an optional exponent. -/
def read? (cs : List Char) : Option Numeral :=
  let (negative, body) := sign cs
  let (whole, afterWhole) := Digits.takeAll body
  let (fraction, rest) :=
    match afterWhole with
    | '.' :: more => Digits.takeAll more
    | more => ([], more)
  if whole.isEmpty && fraction.isEmpty then none
  else
    (exponent? rest).map fun e =>
      ⟨negative, ⟨Digits.value (whole ++ fraction), e - fraction.length⟩⟩

/-- The nearest double. Magnitudes far beyond the range of doubles are settled without working out
their power of ten. -/
def toFloat (n : Numeral) : Float :=
  if n.decimal.significand = 0 ∨ n.decimal.magnitude < -400 then ofPattern n.negative 0
  else if 400 < n.decimal.magnitude then ofPattern n.negative Format.double.infinity
  else nearestFloat n.negative n.decimal.ratio

end Numeral

end Crossover.Numeric
