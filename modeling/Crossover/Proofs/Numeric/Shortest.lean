/-
Crossover.Proofs.Numeric.Shortest — the shortest decimal of a double is read as that double.

The decimal is taken from the first grid that has a point around the pattern, so it lies around the pattern if any
grid has one (`contains_of_neighbour?`). The last one has: with seventeen digits, the nearer of the two neighbours
is nearer than any number that is not rounded to the pattern (`exists_neighbour?_seventeen`). Reading is rounding,
and what lies around a pattern is rounded to it (`toFloat_of_around`).

  §1 Magnitudes — how many digits a number has before its point.
  §2 Neighbours — the points of a grid beside a number.
  §3 Shortest   — the decimal that is written.
  §4 Reading    — decimals around a pattern.
-/
import Crossover.Proofs.Numeric.Nearest
import Crossover.Proofs.Text.Digits

namespace Crossover.Numeric

open Text

/-! ## §1 Magnitudes -/

theorem lt_pow_count (n : ℕ) : n < 10 ^ Digits.count n := by
  unfold Digits.count
  split
  · rename_i hzero
    rw [hzero]
    decide
  · have hvalue := Digits.value_lt (Digits.isDigit_of_mem_ofNat n)
    rwa [Digits.value_ofNat] at hvalue

theorem pow_count_le {n : ℕ} (h : n ≠ 0) : 10 ^ (Digits.count n - 1) ≤ n := by
  by_contra hlt
  rw [not_le] at hlt
  rw [Digits.count, if_neg h] at hlt
  rcases Nat.eq_zero_or_pos ((Digits.ofNat n).length - 1) with hzero | hpos
  · rw [hzero] at hlt
    omega
  · have := Digits.length_ofNat_le hpos hlt
    omega

theorem count_pos {n : ℕ} (h : n ≠ 0) : 0 < Digits.count n := by
  rw [Digits.count, if_neg h]
  exact List.length_pos_iff.2 (Digits.ofNat_ne_nil n)

/-- A positive fraction is at least a tenth of the power of ten that its magnitude gives. -/
theorem Ratio.pow_decimalMagnitude_le {r : Ratio} (hnum : 0 < r.num) (hden : 0 < r.den) :
    (10 : ℚ) ^ (r.decimalMagnitude - 1) ≤ r.value := by
  have hdenPos : (0 : ℚ) < r.den := by exact_mod_cast hden
  unfold decimalMagnitude
  split
  · rename_i hlarge
    have hquotient : r.num / r.den ≠ 0 := (Nat.div_pos hlarge hden).ne'
    have hcount := count_pos hquotient
    have hpow : (10 : ℚ) ^ ((Digits.count (r.num / r.den) : ℤ) - 1) = 10 ^ (Digits.count (r.num / r.den) - 1) := by
      rw [← zpow_natCast, Nat.cast_sub hcount, Nat.cast_one]
    rw [hpow]
    refine le_trans ?_ (below_le hden)
    exact_mod_cast pow_count_le hquotient
  · rename_i hsmall
    have hden' : r.den ≤ r.num * 10 ^ Digits.count ((r.den - 1) / r.num) := by
      have hlt := lt_pow_count ((r.den - 1) / r.num)
      rw [Nat.div_lt_iff_lt_mul hnum, Nat.mul_comm] at hlt
      omega
    have hexponent : (1 - (Digits.count ((r.den - 1) / r.num) : ℤ)) - 1 =
        -(Digits.count ((r.den - 1) / r.num) : ℤ) := by ring
    rw [hexponent, zpow_neg, zpow_natCast, value, le_div_iff₀ hdenPos, inv_mul_le_iff₀ (by positivity),
      mul_comm]
    exact_mod_cast hden'

namespace Decimal

/-- The number that a decimal stands for. -/
def value (d : Decimal) : ℚ :=
  d.significand * (10 : ℚ) ^ d.exponent

theorem den_ratio_pos (d : Decimal) : 0 < d.ratio.den :=
  Ratio.den_scaled10_pos _ _

theorem value_ratio (d : Decimal) : d.ratio.value = d.value :=
  Ratio.value_scaled10 d.significand d.exponent

/-- A number is below the power of ten that its magnitude gives. -/
theorem value_lt_pow (d : Decimal) : d.value < 10 ^ d.magnitude := by
  rw [value, magnitude, zpow_add₀ (by norm_num), zpow_natCast]
  gcongr
  exact_mod_cast lt_pow_count d.significand

theorem pow_le_value {d : Decimal} (h : d.significand ≠ 0) : (10 : ℚ) ^ (d.magnitude - 1) ≤ d.value := by
  have hcount := count_pos h
  have hexponent : d.magnitude - 1 = ((Digits.count d.significand - 1 : ℕ) : ℤ) + d.exponent := by
    rw [magnitude]
    omega
  rw [value, hexponent, zpow_add₀ (by norm_num), zpow_natCast]
  gcongr
  exact_mod_cast pow_count_le h

/-- Without the zeros at the end of its significand, a decimal is the same number. -/
theorem value_strip (d : Decimal) : d.strip.value = d.value := by
  fun_induction strip d with
  | case1 d h ih =>
    obtain ⟨q, hq⟩ := Nat.dvd_of_mod_eq_zero h.2
    rw [ih, value, value, zpow_add_one₀ (by norm_num), hq, Nat.mul_div_cancel_left q (by decide)]
    push_cast
    ring
  | case2 d h => rfl

end Decimal

/-! ## §2 Neighbours -/

/-- A neighbour on a grid is in the interval. -/
theorem Interval.contains_of_neighbour? {i : Interval} {r : Ratio} {k : ℤ} {d : Decimal}
    (h : i.neighbour? r k = some d) : i.contains d.ratio = true := by
  unfold neighbour? at h
  dsimp only at h
  split at h
  · rename_i hboth
    rw [Bool.and_eq_true] at hboth
    cases h
    rcases (r.perPow10 k).round_cases with hround | hround
    · rw [Decimal.ratio, hround]
      exact hboth.1
    · rw [Decimal.ratio, hround]
      exact hboth.2
  · split at h
    · rename_i hbelow
      cases h
      exact hbelow
    · split at h
      · rename_i habove
        cases h
        exact habove
      · cases h

theorem Interval.exists_neighbour? {i : Interval} {r : Ratio} {k : ℤ}
    (h : i.contains (Ratio.scaled10 ((r.perPow10 k).num / (r.perPow10 k).den) k) = true ∨
      i.contains (Ratio.scaled10 ((r.perPow10 k).num / (r.perPow10 k).den + 1) k) = true) :
    ∃ d, i.neighbour? r k = some d := by
  unfold neighbour?
  dsimp only
  rcases h with hbelow | habove
  · rw [hbelow, Bool.true_and]
    split
    · exact ⟨_, rfl⟩
    · exact ⟨_, rfl⟩
  · rw [habove, Bool.and_true]
    split
    · exact ⟨_, rfl⟩
    · exact ⟨_, rfl⟩

/-- One of the two neighbours on a grid is half a step away at most. -/
theorem near_neighbour {r : Ratio} (hr : 0 < r.den) (k : ℤ) :
    |(Ratio.scaled10 ((r.perPow10 k).num / (r.perPow10 k).den) k).value - r.value| ≤ 10 ^ k / 2 ∨
      |(Ratio.scaled10 ((r.perPow10 k).num / (r.perPow10 k).den + 1) k).value - r.value| ≤ 10 ^ k / 2 := by
  have hstep : (0 : ℚ) < 10 ^ k := zpow_pos (by norm_num) k
  have hden := Ratio.den_perPow10_pos hr k
  have hlow := Ratio.below_le hden
  have hhigh := Ratio.lt_above hden
  rw [Ratio.value_perPow10] at hlow hhigh
  rw [Ratio.value_scaled10, Ratio.value_scaled10]
  generalize (r.perPow10 k).num / (r.perPow10 k).den = below at *
  have hvalue : r.value = r.value / 10 ^ k * 10 ^ k := by field_simp
  generalize r.value / 10 ^ k = scaled at *
  rw [hvalue, Nat.cast_add, Nat.cast_one]
  rcases le_total (scaled - below) (1 / 2) with hnear | hnear
  · left
    rw [abs_le]
    constructor <;> nlinarith
  · right
    rw [abs_le]
    constructor <;> nlinarith

/-! ## §3 Shortest -/

open Format (double)

/-- What is nearer to a number of 53 bits than one part in two to the power 54 is rounded to it. -/
theorem around_of_near {d : Dyadic} (hd : double.Canonical d) {v : ℚ}
    (h : |v - d.value| < d.value / 2 ^ 54) : double.Around d v := by
  have hunit : (0 : ℚ) < 2 ^ d.exponent := zpow_pos (by norm_num) _
  have hspan : double.span = 2 ^ 52 := rfl
  have hsmall : (d.significand : ℚ) < 2 ^ 53 := by
    have := hd.small
    rw [hspan] at this
    exact_mod_cast this
  obtain ⟨hbelow, habove⟩ := abs_lt.1 h
  have hlow : double.low d ≤ d.value - d.value / 2 ^ 54 := by
    rw [Format.low, Dyadic.value, mul_div_right_comm, ← sub_mul]
    refine mul_le_mul_of_nonneg_right ?_ hunit.le
    split
    · rename_i hbegins
      rw [hbegins.1, hspan]
      norm_num
    · linarith
  have hhigh : d.value + d.value / 2 ^ 54 ≤ Format.high d := by
    rw [Format.high, Dyadic.value, mul_div_right_comm, ← add_mul]
    exact mul_le_mul_of_nonneg_right (by linarith) hunit.le
  refine ⟨by linarith, by linarith, ?_⟩
  rintro (heq | heq)
  · linarith
  · linarith

/-- Seventeen digits are enough. -/
theorem exists_neighbour?_seventeen {pattern : ℕ} (hpattern : pattern ≠ 0) :
    ∃ d, (double.preimage pattern).neighbour? (double.decode pattern).ratio
      ((double.decode pattern).ratio.decimalMagnitude - (16 : ℕ) - 1) = some d := by
  have hden : 0 < (double.decode pattern).ratio.den := Ratio.den_scaled2_pos _ _
  have hvalue : 0 < (double.decode pattern).ratio.value := by
    have hpos : (0 : ℚ) < (double.decode pattern).significand := by
      exact_mod_cast Format.significand_pos (f := double) hpattern
    rw [Dyadic.value_ratio, Dyadic.value]
    positivity
  have hmagnitude := Ratio.pow_decimalMagnitude_le (Ratio.num_pos_of_value hvalue) hden
  have hgrid : (10 : ℚ) ^ ((double.decode pattern).ratio.decimalMagnitude - (16 : ℕ) - 1) / 2 <
      (double.decode pattern).ratio.value / 2 ^ 54 := by
    rw [sub_right_comm, zpow_sub₀ (by norm_num), zpow_natCast]
    calc (10 : ℚ) ^ ((double.decode pattern).ratio.decimalMagnitude - 1) / 10 ^ 16 / 2
        ≤ (double.decode pattern).ratio.value / 10 ^ 16 / 2 := by gcongr
      _ < (double.decode pattern).ratio.value / 2 ^ 54 := by
        rw [div_div]
        gcongr
        norm_num
  have haround : ∀ n k, |(Ratio.scaled10 n k).value - (double.decode pattern).ratio.value| ≤
      (10 : ℚ) ^ ((double.decode pattern).ratio.decimalMagnitude - (16 : ℕ) - 1) / 2 →
      (double.preimage pattern).contains (Ratio.scaled10 n k) = true := by
    intro n k hnear
    rw [Format.contains_preimage_iff hpattern (Ratio.den_scaled10_pos _ _)]
    refine around_of_near (double.decode_canonical pattern) ?_
    rw [← Dyadic.value_ratio]
    exact hnear.trans_lt hgrid
  refine Interval.exists_neighbour? ?_
  rcases near_neighbour hden ((double.decode pattern).ratio.decimalMagnitude - (16 : ℕ) - 1) with hbelow | habove
  · exact .inl (haround _ _ hbelow)
  · exact .inr (haround _ _ habove)

/-- The shortest decimal lies around its pattern. -/
theorem around_shortest {pattern : ℕ} (hpattern : pattern ≠ 0) :
    double.Around (double.decode pattern) (shortest pattern).value := by
  unfold shortest
  dsimp only
  split
  · rename_i d hfound
    obtain ⟨n, -, hneighbour⟩ := List.exists_of_findSome?_eq_some hfound
    have hcontains := Interval.contains_of_neighbour? hneighbour
    rw [Format.contains_preimage_iff hpattern d.den_ratio_pos, Decimal.value_ratio] at hcontains
    rwa [Decimal.value_strip]
  · rename_i hnone
    obtain ⟨d, hd⟩ := exists_neighbour?_seventeen hpattern
    rw [List.findSome?_eq_none_iff] at hnone
    have := hnone 16 (by decide)
    rw [hd] at this
    cases this

/-! ## §4 Reading -/

theorem exponent_le {pattern : ℕ} (hfinite : pattern < double.infinity) :
    (double.decode pattern).exponent ≤ 971 := by
  have hsum := double.decode_pattern pattern
  have hspan : double.span = 2 ^ 52 := rfl
  have hdepth : (double.depth : ℤ) = 1074 := rfl
  have hinfinity : double.infinity = 2047 * 2 ^ 52 := rfl
  rw [hspan, hdepth] at hsum
  rw [hinfinity] at hfinite
  rcases (double.decode_canonical pattern).full with hfull | hleast
  · rw [hspan] at hfull
    omega
  · omega

/-- The numbers around a pattern are within the range of powers of two. -/
theorem Format.Around.bounds {pattern : ℕ} (hpattern : pattern ≠ 0) (hfinite : pattern < double.infinity) {v : ℚ}
    (h : double.Around (double.decode pattern) v) : (2 : ℚ) ^ (-1075 : ℤ) ≤ v ∧ v ≤ 2 ^ (1025 : ℤ) := by
  have hd := double.decode_canonical pattern
  have hpos : (1 : ℚ) ≤ (double.decode pattern).significand := by
    exact_mod_cast Format.significand_pos (f := double) hpattern
  have hsmall : ((double.decode pattern).significand : ℚ) + 1 ≤ 2 ^ 53 := by exact_mod_cast hd.small
  have hexponent := exponent_le hfinite
  generalize double.decode pattern = d at *
  constructor
  · refine le_trans ?_ h.above
    calc (2 : ℚ) ^ (-1075 : ℤ) = 1 / 2 * 2 ^ (-1074 : ℤ) := by
          rw [show (-1075 : ℤ) = -1074 - 1 from rfl, zpow_sub_one₀ (by norm_num)]
          ring
      _ ≤ 1 / 2 * 2 ^ d.exponent := by
          gcongr
          · norm_num
          · exact hd.least
      _ ≤ double.low d := by
          refine mul_le_mul_of_nonneg_right ?_ (zpow_nonneg (by norm_num) _)
          split <;> linarith
  · refine h.below.trans ?_
    calc Format.high d ≤ 2 ^ 54 * 2 ^ d.exponent :=
          mul_le_mul_of_nonneg_right (by linarith) (zpow_nonneg (by norm_num) _)
      _ ≤ 2 ^ 54 * 2 ^ (971 : ℤ) := by
          gcongr
          norm_num
      _ = 2 ^ (1025 : ℤ) := by
          rw [show (1025 : ℤ) = (54 : ℕ) + 971 from rfl, zpow_add₀ (by norm_num), zpow_natCast]

/-- What is rounded to a finite pattern other than zero is neither too small nor too large to be worked out. -/
theorem magnitude_bounds {pattern : ℕ} (hpattern : pattern ≠ 0) (hfinite : pattern < double.infinity) {d : Decimal}
    (h : double.Around (double.decode pattern) d.value) :
    d.significand ≠ 0 ∧ -400 ≤ d.magnitude ∧ d.magnitude ≤ 400 := by
  obtain ⟨hlow, hhigh⟩ := h.bounds hpattern hfinite
  have hvalue := h.pos (Format.significand_pos hpattern)
  have hsignificand : d.significand ≠ 0 := by
    intro hzero
    rw [Decimal.value, hzero, Nat.cast_zero, zero_mul] at hvalue
    exact lt_irrefl _ hvalue
  refine ⟨hsignificand, ?_, ?_⟩
  · by_contra hlt
    have hmagnitude : (10 : ℚ) ^ d.magnitude ≤ 10 ^ (-400 : ℤ) := zpow_le_zpow_right₀ (by norm_num) (by omega)
    have hfar : (10 : ℚ) ^ (-400 : ℤ) < 2 ^ (-1075 : ℤ) := by
      have hpowers : 2 ^ 1075 < 10 ^ 400 := by decide +kernel
      rw [zpow_neg, zpow_neg, inv_lt_inv₀ (by positivity) (by positivity)]
      exact_mod_cast hpowers
    exact absurd (hlow.trans_lt d.value_lt_pow) (not_lt.2 (hmagnitude.trans hfar.le))
  · by_contra hgt
    have hmagnitude : (10 : ℚ) ^ (400 : ℤ) ≤ 10 ^ (d.magnitude - 1) := zpow_le_zpow_right₀ (by norm_num) (by omega)
    have hfar : (2 : ℚ) ^ (1025 : ℤ) < 10 ^ (400 : ℤ) := by
      have hpowers : 2 ^ 1025 < 10 ^ 400 := by decide +kernel
      exact_mod_cast hpowers
    exact absurd (hmagnitude.trans ((Decimal.pow_le_value hsignificand).trans hhigh)) (not_le.2 hfar)

/-- **A numeral around a finite pattern other than zero is read as the double of this pattern.** -/
theorem toFloat_of_around {pattern : ℕ} (hpattern : pattern ≠ 0) (hfinite : pattern < double.infinity)
    {n : Numeral} (h : double.Around (double.decode pattern) n.decimal.value) :
    n.toFloat = ofPattern n.negative pattern := by
  obtain ⟨hsignificand, hlow, hhigh⟩ := magnitude_bounds hpattern hfinite h
  have hsmall : ¬ (n.decimal.significand = 0 ∨ n.decimal.magnitude < -400) := by omega
  rw [← Decimal.value_ratio] at h
  rw [Numeral.toFloat, if_neg hsmall, if_neg (by omega), nearestFloat,
    Format.nearest_eq_of_around (by decide) hpattern hfinite n.decimal.den_ratio_pos h]

end Crossover.Numeric
