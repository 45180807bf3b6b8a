/-
Crossover.Proofs.Numeric.Ratio — fractions of natural numbers as rational numbers.

Everything about fractions that the reading and writing of doubles works with is told by `value`: how they
compare, what a power of two or ten makes of them, and to which whole number they are rounded (`round_eq`).
The definitions split on the sign of an exponent, the values do not.

  §1 Values   — order, and powers of a base.
  §2 Rounding — the whole numbers beside a fraction, and the nearest one.
-/
import Mathlib
import Crossover.Numeric.Rounding

namespace Crossover.Numeric

/-! ## §1 Values -/

namespace Ratio

/-- The number that a fraction stands for. -/
def value (r : Ratio) : ℚ :=
  r.num / r.den

theorem num_pos_of_value {r : Ratio} (h : 0 < r.value) : 0 < r.num := by
  refine Nat.pos_of_ne_zero fun hzero => ?_
  rw [value, hzero, Nat.cast_zero, zero_div] at h
  exact lt_irrefl _ h

theorem le_iff {r s : Ratio} (hr : 0 < r.den) (hs : 0 < s.den) : r.le s = true ↔ r.value ≤ s.value := by
  have hr : (0 : ℚ) < r.den := by exact_mod_cast hr
  have hs : (0 : ℚ) < s.den := by exact_mod_cast hs
  rw [le, decide_eq_true_eq, value, value, div_le_div_iff₀ hr hs]
  exact_mod_cast Iff.rfl

theorem lt_iff {r s : Ratio} (hr : 0 < r.den) (hs : 0 < s.den) : r.lt s = true ↔ r.value < s.value := by
  have hr : (0 : ℚ) < r.den := by exact_mod_cast hr
  have hs : (0 : ℚ) < s.den := by exact_mod_cast hs
  rw [lt, decide_eq_true_eq, value, value, div_lt_div_iff₀ hr hs]
  exact_mod_cast Iff.rfl

/-- A whole number times a power of a base. -/
theorem value_scaled {base : ℕ} (hbase : 0 < base) (n : ℕ) (k : ℤ) :
    (if 0 ≤ k then (⟨n * base ^ k.toNat, 1⟩ : Ratio) else ⟨n, base ^ (-k).toNat⟩).value = n * (base : ℚ) ^ k := by
  have hbase : (base : ℚ) ≠ 0 := by exact_mod_cast hbase.ne'
  split
  · rename_i hk
    obtain ⟨j, rfl⟩ := Int.eq_ofNat_of_zero_le hk
    simp [value]
  · rename_i hk
    obtain ⟨j, hj⟩ := Int.eq_ofNat_of_zero_le (show 0 ≤ -k by omega)
    obtain rfl : k = -(j : ℤ) := by omega
    simp [value, div_eq_mul_inv]

/-- A fraction in units of a power of a base. -/
theorem value_per {base : ℕ} (hbase : 0 < base) (r : Ratio) (k : ℤ) :
    (if 0 ≤ k then (⟨r.num, r.den * base ^ k.toNat⟩ : Ratio) else ⟨r.num * base ^ (-k).toNat, r.den⟩).value =
      r.value / (base : ℚ) ^ k := by
  have hbase : (base : ℚ) ≠ 0 := by exact_mod_cast hbase.ne'
  split
  · rename_i hk
    obtain ⟨j, rfl⟩ := Int.eq_ofNat_of_zero_le hk
    simp [value, div_div]
  · rename_i hk
    obtain ⟨j, hj⟩ := Int.eq_ofNat_of_zero_le (show 0 ≤ -k by omega)
    obtain rfl : k = -(j : ℤ) := by omega
    simp [value, mul_div_right_comm]

theorem value_scaled2 (n : ℕ) (k : ℤ) : (scaled2 n k).value = n * (2 : ℚ) ^ k :=
  value_scaled (by decide) n k

theorem value_scaled10 (n : ℕ) (k : ℤ) : (scaled10 n k).value = n * (10 : ℚ) ^ k :=
  value_scaled (by decide) n k

theorem value_perPow2 (r : Ratio) (k : ℤ) : (r.perPow2 k).value = r.value / (2 : ℚ) ^ k :=
  value_per (by decide) r k

theorem value_perPow10 (r : Ratio) (k : ℤ) : (r.perPow10 k).value = r.value / (10 : ℚ) ^ k :=
  value_per (by decide) r k

theorem pow2_pos (k : ℕ) : 0 < pow2 k := Nat.pow_pos (by decide)

theorem pow10_pos (k : ℕ) : 0 < pow10 k := Nat.pow_pos (by decide)

theorem den_scaled2_pos (n : ℕ) (k : ℤ) : 0 < (scaled2 n k).den := by
  unfold scaled2
  split
  · exact Nat.one_pos
  · exact pow2_pos _

theorem den_scaled10_pos (n : ℕ) (k : ℤ) : 0 < (scaled10 n k).den := by
  unfold scaled10
  split
  · exact Nat.one_pos
  · exact pow10_pos _

theorem den_perPow2_pos {r : Ratio} (hr : 0 < r.den) (k : ℤ) : 0 < (r.perPow2 k).den := by
  unfold perPow2
  split
  · exact Nat.mul_pos hr (pow2_pos _)
  · exact hr

theorem den_perPow10_pos {r : Ratio} (hr : 0 < r.den) (k : ℤ) : 0 < (r.perPow10 k).den := by
  unfold perPow10
  split
  · exact Nat.mul_pos hr (pow10_pos _)
  · exact hr

/-! ## §2 Rounding -/

/-- A fraction is at least the whole number that division gives. -/
theorem below_le {r : Ratio} (hr : 0 < r.den) : ((r.num / r.den : ℕ) : ℚ) ≤ r.value := by
  have hden : (0 : ℚ) < r.den := by exact_mod_cast hr
  rw [value, le_div_iff₀ hden]
  exact_mod_cast Nat.div_mul_le_self r.num r.den

theorem lt_above {r : Ratio} (hr : 0 < r.den) : r.value < ((r.num / r.den : ℕ) : ℚ) + 1 := by
  have hden : (0 : ℚ) < r.den := by exact_mod_cast hr
  rw [value, div_lt_iff₀ hden]
  exact_mod_cast Nat.lt_div_mul_add hr |>.trans_eq (by ring)

/-- A fraction is rounded to one of the two whole numbers beside it. -/
theorem round_cases (r : Ratio) : r.round = r.num / r.den ∨ r.round = r.num / r.den + 1 := by
  unfold round roundDiv
  dsimp only
  repeat' split
  all_goals simp

end Ratio

/-- The whole number that is half a unit away at most, and even if it is just half a unit away. -/
theorem roundDiv_eq {num den n : ℕ} (hden : 0 < den) (hlow : 2 * (n * den) ≤ 2 * num + den)
    (hhigh : 2 * num ≤ 2 * (n * den) + den)
    (heven : 2 * (n * den) = 2 * num + den ∨ 2 * num = 2 * (n * den) + den → n % 2 = 0) :
    roundDiv num den = n := by
  have hsum := Nat.div_add_mod num den
  have hrest := Nat.mod_lt num hden
  rw [Nat.mul_comm] at hsum
  unfold roundDiv
  dsimp only
  generalize num / den = q at *
  generalize num % den = rest at *
  have hcases : n + 1 ≤ q ∨ n = q ∨ n = q + 1 ∨ q + 2 ≤ n := by omega
  rcases hcases with hless | rfl | rfl | hmore
  · have := Nat.mul_le_mul_right den hless
    rw [Nat.add_mul] at this
    omega
  · split
    · rfl
    · split
      · omega
      · rw [if_pos (heven (by omega))]
  · rw [Nat.add_mul] at hlow hhigh heven
    split
    · omega
    · split
      · rfl
      · have := heven (by omega)
        rw [if_neg (by omega)]
  · have := Nat.mul_le_mul_right den hmore
    rw [Nat.add_mul] at this
    omega

/-- A fraction that is half a unit away from a whole number at most is rounded to it, if that is even or the
fraction is nearer. -/
theorem Ratio.round_eq {r : Ratio} (hr : 0 < r.den) {n : ℕ} (hlow : (n : ℚ) - 1 / 2 ≤ r.value)
    (hhigh : r.value ≤ n + 1 / 2)
    (heven : r.value = n - 1 / 2 ∨ r.value = n + 1 / 2 → n % 2 = 0) : r.round = n := by
  have hden : (0 : ℚ) < r.den := by exact_mod_cast hr
  rw [value] at hlow hhigh heven
  rw [le_div_iff₀ hden] at hlow
  rw [div_le_iff₀ hden] at hhigh
  rw [div_eq_iff hden.ne', div_eq_iff hden.ne'] at heven
  refine roundDiv_eq hr ?_ ?_ fun h => heven ?_
  · have : (2 * (n * r.den) : ℚ) ≤ 2 * r.num + r.den := by linarith
    exact_mod_cast this
  · have : (2 * r.num : ℚ) ≤ 2 * (n * r.den) + r.den := by linarith
    exact_mod_cast this
  · rcases h with h | h
    · have : (2 * (n * r.den) : ℚ) = 2 * r.num + r.den := by exact_mod_cast h
      exact .inl (by linarith)
    · have : (2 * r.num : ℚ) = 2 * (n * r.den) + r.den := by exact_mod_cast h
      exact .inr (by linarith)

end Crossover.Numeric
