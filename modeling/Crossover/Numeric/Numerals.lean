/-
Crossover.Numeric.Numerals — how doubles are written.

Two forms: the shortest decimal that reads back (`NumeralStyle.write`), laid out by a style, and a
fixed number of decimals (`fixed`), rounded from the exact value.
-/
import Crossover.Numeric.Decimal

namespace Crossover.Numeric

open Crossover.Text

/-! ## 1. The shortest form -/

/-- How a shortest decimal is laid out. With `0.d₁d₂…` times ten to the power `k`, it is written
plainly for `plainAbove < k ≤ plainUpTo`, and with an exponent otherwise. -/
structure NumeralStyle where
  plainAbove : Int
  plainUpTo : Int
  /-- Whether a positive exponent is written with a plus sign. -/
  exponentPlus : Bool

namespace NumeralStyle

/-- The exponent of the scientific form. -/
def exponentText (style : NumeralStyle) (e : Int) : List Char :=
  let sign := if e < 0 then ['-'] else if style.exponentPlus then ['+'] else []
  'e' :: sign ++ Digits.ofNat e.natAbs

/-- A positive decimal, its significand without zeros at the end. A plain number always has a point
and a digit after it. -/
def layout (style : NumeralStyle) (d : Decimal) : List Char :=
  let digits := Digits.ofNat d.significand
  let k := d.magnitude
  if style.plainAbove < k ∧ k ≤ style.plainUpTo then
    if k ≤ 0 then ['0', '.'] ++ List.replicate (-k).toNat '0' ++ digits
    else if digits.length ≤ k.toNat then
      digits ++ List.replicate (k.toNat - digits.length) '0' ++ ['.', '0']
    else digits.take k.toNat ++ '.' :: digits.drop k.toNat
  else
    match digits with
    | [] => []
    | [c] => c :: style.exponentText (k - 1)
    | c :: rest => c :: '.' :: rest ++ style.exponentText (k - 1)

def write (style : NumeralStyle) (x : Float) : List Char :=
  let pattern := patternOf x
  let body := if pattern = 0 then ['0', '.', '0'] else style.layout (shortest pattern)
  if isNegative x then '-' :: body else body

end NumeralStyle

/-! ## 2. A fixed number of decimals -/

/-- The name of a number that is not finite. -/
def specialName (x : Float) : List Char :=
  if x.isNaN then ['N', 'a', 'N']
  else if isNegative x then ['-', 'i', 'n', 'f']
  else ['i', 'n', 'f']

/-- A double with `places` decimals, rounded from its exact value, a half to the even digit. The
sign stays on numbers that round to zero. -/
def fixed (places : Nat) (x : Float) : List Char :=
  if x.isFinite then
    let r := (Format.double.decode (patternOf x)).ratio
    let digits := Digits.padded (places + 1) (roundDiv (r.num * pow10 places) r.den)
    let whole := digits.take (digits.length - places)
    let body := whole ++ '.' :: digits.drop (digits.length - places)
    if isNegative x then '-' :: body else body
  else specialName x

end Crossover.Numeric
