/-
Crossover.Proofs.Numeric.Nearest — every number around a pattern is rounded to it.

A pattern stands for a significand in units of a power of two (`decode_canonical`), and around it lie the numbers
up to half a unit away, or a quarter below where a binade begins (`contains_preimage_iff`). All of them have the
pattern as their nearest one (`nearest_eq_of_around`): most lie in the binade of the pattern and are rounded in
its own unit; those below the beginning of a binade are rounded in half that unit, and carried into the binade.

  §1 Patterns — intervals, significands, and the numbers they stand for.
  §2 Binades  — the power of two below a fraction.
  §3 Nearest  — rounding what is around a pattern.
-/
import Crossover.Numeric.Binary
import Crossover.Numeric.Decimal
import Crossover.Proofs.Numeric.Ratio

namespace Crossover.Numeric

/-! ## §1 Patterns -/

/-- An interval has what lies between its ends, and the ends if it is closed. -/
theorem Interval.contains_iff {i : Interval} (hlow : 0 < i.low.den) (hhigh : 0 < i.high.den) {r : Ratio}
    (hr : 0 < r.den) : i.contains r = true ↔
      i.low.value ≤ r.value ∧ r.value ≤ i.high.value ∧
        (r.value = i.low.value ∨ r.value = i.high.value → i.closed = true) := by
  rw [contains]
  cases hclosed : i.closed with
  | true =>
    rw [if_pos rfl, Bool.and_eq_true, Ratio.le_iff hlow hr, Ratio.le_iff hr hhigh]
    exact ⟨fun ⟨hl, hh⟩ => ⟨hl, hh, fun _ => rfl⟩, fun ⟨hl, hh, _⟩ => ⟨hl, hh⟩⟩
  | false =>
    rw [if_neg Bool.false_ne_true, Bool.and_eq_true, Ratio.lt_iff hlow hr, Ratio.lt_iff hr hhigh]
    constructor
    · rintro ⟨hl, hh⟩
      exact ⟨hl.le, hh.le, fun h => by rcases h with h | h <;> linarith⟩
    · rintro ⟨hl, hh, hends⟩
      exact ⟨lt_of_le_of_ne hl fun h => Bool.false_ne_true (hends (.inl h.symm)),
        lt_of_le_of_ne hh fun h => Bool.false_ne_true (hends (.inr h))⟩

/-- The number that a significand and an exponent stand for. -/
def Dyadic.value (d : Dyadic) : ℚ :=
  d.significand * (2 : ℚ) ^ d.exponent

theorem Dyadic.value_ratio (d : Dyadic) : d.ratio.value = d.value :=
  Ratio.value_scaled2 d.significand d.exponent

namespace Format

variable {f : Format} {pattern : ℕ}

theorem span_pos (f : Format) : 0 < f.span := Ratio.pow2_pos _

/-- A significand has all its bits, or the least exponent. -/
structure Canonical (f : Format) (d : Dyadic) : Prop where
  least : -(f.depth : ℤ) ≤ d.exponent
  small : d.significand < 2 * f.span
  full : f.span ≤ d.significand ∨ d.exponent = -(f.depth : ℤ)

theorem decode_canonical (f : Format) (pattern : ℕ) : f.Canonical (f.decode pattern) := by
  have hrest := Nat.mod_lt pattern f.span_pos
  unfold decode
  dsimp only
  split
  · exact ⟨le_rfl, hrest.trans_le (Nat.le_mul_of_pos_left _ (by decide)), .inr rfl⟩
  · rename_i hfield
    have hleast : -(f.depth : ℤ) ≤ ((pattern / f.span : ℕ) : ℤ) - 1 - f.depth := by
      generalize pattern / f.span = field at hfield
      omega
    have hsmall : f.span + pattern % f.span < 2 * f.span := by omega
    exact ⟨hleast, hsmall, .inl (Nat.le_add_right _ _)⟩

/-- A pattern counts the spans below its exponent, and its significand. -/
theorem decode_pattern (f : Format) (pattern : ℕ) :
    ((f.decode pattern).exponent + f.depth).toNat * f.span + (f.decode pattern).significand = pattern := by
  have hsum := Nat.div_add_mod pattern f.span
  rw [Nat.mul_comm] at hsum
  unfold decode
  dsimp only
  split
  · rename_i hfield
    rw [hfield, Nat.zero_mul] at hsum
    simpa using hsum
  · rename_i hfield
    obtain ⟨field, hfield⟩ := Nat.exists_eq_succ_of_ne_zero hfield
    rw [hfield, Nat.succ_mul] at hsum
    have hexponent : (((field + 1 : ℕ) : ℤ) - 1 - f.depth + f.depth).toNat = field := by omega
    dsimp only
    rw [hfield, Nat.succ_eq_add_one, hexponent]
    omega

theorem significand_pos (h : pattern ≠ 0) : 0 < (f.decode pattern).significand := by
  have hpattern := f.decode_pattern pattern
  have hcanonical := f.decode_canonical pattern
  rcases hcanonical.full with hfull | hleast
  · exact f.span_pos.trans_le hfull
  · have hzero : ((f.decode pattern).exponent + f.depth).toNat = 0 := by omega
    rw [hzero, Nat.zero_mul] at hpattern
    omega

/-- The least number around a pattern: half a unit below it, or a quarter where a binade begins. -/
def low (f : Format) (d : Dyadic) : ℚ :=
  (d.significand - if d.significand = f.span ∧ -(f.depth : ℤ) < d.exponent then 1 / 4 else 1 / 2) *
    2 ^ d.exponent

/-- The greatest number around a pattern. -/
def high (d : Dyadic) : ℚ :=
  (d.significand + 1 / 2) * 2 ^ d.exponent

/-- A number around a pattern; the ends belong to those with even significands. -/
structure Around (f : Format) (d : Dyadic) (v : ℚ) : Prop where
  above : f.low d ≤ v
  below : v ≤ high d
  ends : v = f.low d ∨ v = high d → d.significand % 2 = 0

/-- The ends of an interval are in units of a quarter. -/
theorem zpow_sub_two (e : ℤ) : (2 : ℚ) ^ (e - 2) = 2 ^ e / 4 := by
  rw [zpow_sub₀ (by norm_num)]
  norm_num

theorem value_preimage_low (hpattern : pattern ≠ 0) :
    (f.preimage pattern).low.value = f.low (f.decode pattern) := by
  have hpos := significand_pos (f := f) hpattern
  rw [preimage, Ratio.value_scaled2, zpow_sub_two, low]
  split
  · rw [Nat.cast_sub (by omega)]
    push_cast
    ring
  · rw [Nat.cast_sub (by omega)]
    push_cast
    ring

theorem value_preimage_high (f : Format) (pattern : ℕ) :
    (f.preimage pattern).high.value = high (f.decode pattern) := by
  rw [preimage, Ratio.value_scaled2, zpow_sub_two, high]
  push_cast
  ring

theorem contains_preimage_iff (hpattern : pattern ≠ 0) {r : Ratio} (hr : 0 < r.den) :
    (f.preimage pattern).contains r = true ↔ f.Around (f.decode pattern) r.value := by
  have hclosed : (f.preimage pattern).closed = decide ((f.decode pattern).significand % 2 = 0) := rfl
  rw [Interval.contains_iff (Ratio.den_scaled2_pos _ _) (Ratio.den_scaled2_pos _ _) hr,
    value_preimage_low hpattern, value_preimage_high, hclosed, decide_eq_true_eq]
  exact ⟨fun ⟨hlow, hhigh, hends⟩ => ⟨hlow, hhigh, hends⟩, fun h => ⟨h.above, h.below, h.ends⟩⟩

end Format

/-! ## §2 Binades -/

/-- The exponent of the greatest power of two below a number is the only one with this property. -/
theorem log_eq {v : ℚ} {k : ℤ} (hlow : (2 : ℚ) ^ k ≤ v) (hhigh : v < 2 ^ (k + 1)) : Int.log 2 v = k := by
  have hv : 0 < v := lt_of_lt_of_le (zpow_pos (by norm_num) k) hlow
  have hle := (Int.zpow_le_iff_le_log (b := 2) (by decide) hv).1 (by exact_mod_cast hlow)
  have hlt := (Int.lt_zpow_iff_log_lt (b := 2) (by decide) hv).1 (by exact_mod_cast hhigh)
  omega

/-- The leading bit of a fraction is told by its value. -/
theorem Ratio.leadingBit_eq {r : Ratio} (hnum : 0 < r.num) (hden : 0 < r.den) :
    r.leadingBit = Int.log 2 r.value := by
  have hnumLow : ((2 : ℚ) ^ r.num.log2) ≤ r.num := by exact_mod_cast Nat.log2_self_le hnum.ne'
  have hnumHigh : (r.num : ℚ) < 2 ^ (r.num.log2 + 1) := by exact_mod_cast Nat.lt_log2_self
  have hdenLow : ((2 : ℚ) ^ r.den.log2) ≤ r.den := by exact_mod_cast Nat.log2_self_le hden.ne'
  have hdenHigh : (r.den : ℚ) < 2 ^ (r.den.log2 + 1) := by exact_mod_cast Nat.lt_log2_self
  have hpos : (0 : ℚ) < r.den := by exact_mod_cast hden
  have hupper : r.value < 2 ^ ((r.num.log2 : ℤ) - r.den.log2 + 1) := by
    have hpow : (2 : ℚ) ^ ((r.num.log2 : ℤ) - r.den.log2 + 1) = 2 ^ (r.num.log2 + 1) / 2 ^ r.den.log2 := by
      rw [sub_add_eq_add_sub, zpow_sub₀ (by norm_num), zpow_natCast]
      norm_cast
    rw [hpow, value, div_lt_div_iff₀ hpos (by positivity)]
    calc (r.num : ℚ) * 2 ^ r.den.log2 ≤ r.num * r.den := by gcongr
      _ < 2 ^ (r.num.log2 + 1) * r.den := by gcongr
  have hlower : (2 : ℚ) ^ ((r.num.log2 : ℤ) - r.den.log2 - 1) ≤ r.value := by
    have hpow : (2 : ℚ) ^ ((r.num.log2 : ℤ) - r.den.log2 - 1) = 2 ^ r.num.log2 / 2 ^ (r.den.log2 + 1) := by
      rw [sub_sub, zpow_sub₀ (by norm_num), zpow_natCast]
      norm_cast
    rw [hpow, value, div_le_div_iff₀ (by positivity) hpos]
    calc (2 : ℚ) ^ r.num.log2 * r.den ≤ r.num * r.den := by gcongr
      _ ≤ r.num * 2 ^ (r.den.log2 + 1) := by gcongr
  have hone : (scaled2 1 ((r.num.log2 : ℤ) - r.den.log2)).value = 2 ^ ((r.num.log2 : ℤ) - r.den.log2) := by
    rw [value_scaled2, Nat.cast_one, one_mul]
  unfold leadingBit
  dsimp only
  split
  · rename_i hle
    rw [le_iff (den_scaled2_pos _ _) hden, hone] at hle
    exact (log_eq hle hupper).symm
  · rename_i hle
    rw [le_iff (den_scaled2_pos _ _) hden, hone, not_le] at hle
    refine (log_eq hlower ?_).symm
    rwa [sub_add_cancel]

/-! ## §3 Nearest -/

namespace Format

variable {f : Format} {pattern : ℕ}

/-- A number around a pattern lies in the binade of the pattern, or right below it where the binade begins. -/
theorem Around.cases {d : Dyadic} {v : ℚ} (hd : f.Canonical d) (h : f.Around d v) :
    ((d.significand - 1 / 2) * 2 ^ d.exponent ≤ v ∧ v < 2 * f.span * 2 ^ d.exponent ∧
        (f.span * (2 : ℚ) ^ d.exponent ≤ v ∨ d.exponent = -(f.depth : ℤ))) ∨
      (d.significand = f.span ∧ -(f.depth : ℤ) < d.exponent ∧
        (f.span - 1 / 4) * 2 ^ d.exponent ≤ v ∧ v < f.span * 2 ^ d.exponent) := by
  have hunit : (0 : ℚ) < 2 ^ d.exponent := zpow_pos (by norm_num) _
  have hsmall : (d.significand : ℚ) + 1 ≤ 2 * f.span := by exact_mod_cast hd.small
  have habove := h.above
  have hupper : v < 2 * f.span * 2 ^ d.exponent := by
    refine h.below.trans_lt ?_
    rw [high]
    gcongr
    linarith
  rw [low] at habove
  split at habove
  · rename_i hbegins
    obtain ⟨hsignificand, hexponent⟩ := hbegins
    rw [hsignificand] at habove ⊢
    rcases lt_or_ge v (f.span * 2 ^ d.exponent) with hlt | hge
    · exact .inr ⟨rfl, hexponent, habove, hlt⟩
    · refine .inl ⟨le_trans ?_ hge, hupper, .inl hge⟩
      gcongr
      linarith
  · rename_i hwithin
    refine .inl ⟨habove, hupper, ?_⟩
    rcases hd.full with hfull | hleast
    · by_cases hexponent : d.exponent = -(f.depth : ℤ)
      · exact .inr hexponent
      · have hne : d.significand ≠ f.span := fun heq =>
          hwithin ⟨heq, lt_of_le_of_ne hd.least (Ne.symm hexponent)⟩
        have hmore : (f.span : ℚ) + 1 ≤ d.significand := by
          exact_mod_cast lt_of_le_of_ne hfull hne.symm
        refine .inl (le_trans ?_ habove)
        gcongr
        linarith
    · exact .inr hleast

/-- The exponent of the unit in which a number is rounded. -/
def unit (f : Format) (v : ℚ) : ℤ :=
  max (Int.log 2 v - ((f.width : ℤ) - 1)) (-(f.depth : ℤ))

theorem nearest_eq {r : Ratio} (hnum : 0 < r.num) (hden : 0 < r.den) :
    f.nearest r =
      min f.infinity ((f.unit r.value + f.depth).toNat * f.span + (r.perPow2 (f.unit r.value)).round) := by
  have hunit : (if r.leadingBit - ((f.width : ℤ) - 1) < -(f.depth : ℤ) then -(f.depth : ℤ)
      else r.leadingBit - ((f.width : ℤ) - 1)) = f.unit r.value := by
    rw [unit, Ratio.leadingBit_eq hnum hden]
    split <;> omega
  rw [nearest, if_neg hnum.ne']
  simp only [hunit, Nat.min_def]

theorem span_mul (hwidth : 1 ≤ f.width) (e : ℤ) : f.span * (2 : ℚ) ^ e = 2 ^ (e + (f.width - 1)) := by
  have hspan : (f.span : ℚ) = 2 ^ (f.width - 1) := by exact_mod_cast rfl
  rw [hspan, ← zpow_natCast, ← zpow_add₀ (by norm_num), Nat.cast_sub hwidth, Nat.cast_one, add_comm]

/-- In the binade of a pattern, numbers are rounded in the unit of the pattern. -/
theorem unit_within (hwidth : 1 ≤ f.width) {d : Dyadic} (hd : f.Canonical d) {v : ℚ} (hv : 0 < v)
    (hhigh : v < 2 * f.span * 2 ^ d.exponent)
    (hlow : f.span * (2 : ℚ) ^ d.exponent ≤ v ∨ d.exponent = -(f.depth : ℤ)) : f.unit v = d.exponent := by
  have hleast := hd.least
  have hlog : Int.log 2 v < d.exponent + (f.width - 1) + 1 := by
    refine (Int.lt_zpow_iff_log_lt (b := 2) (by decide) hv).1 (hhigh.trans_eq ?_)
    push_cast
    rw [mul_assoc, span_mul hwidth, zpow_add_one₀ (by norm_num), mul_comm]
  rw [unit]
  rcases hlow with hfull | hexponent
  · rw [span_mul hwidth] at hfull
    have hle := (Int.zpow_le_iff_le_log (b := 2) (by decide) hv).1 (by exact_mod_cast hfull)
    omega
  · omega

/-- Right below the beginning of a binade, numbers are rounded in half its unit. -/
theorem unit_below (hwidth : 1 ≤ f.width) {e : ℤ} (he : -(f.depth : ℤ) < e) {v : ℚ}
    (hlow : (f.span - 1 / 4) * (2 : ℚ) ^ e ≤ v) (hhigh : v < f.span * 2 ^ e) : f.unit v = e - 1 := by
  have hspan : (1 : ℚ) ≤ f.span := by exact_mod_cast f.span_pos
  have hhalf : (2 : ℚ) ^ (e + (f.width - 1) - 1) ≤ v := by
    refine le_trans ?_ hlow
    rw [zpow_sub_one₀ (by norm_num), ← span_mul hwidth, mul_right_comm]
    gcongr
    linarith
  rw [span_mul hwidth] at hhigh
  have hlog : Int.log 2 v = e + (f.width - 1) - 1 := log_eq hhalf (by rwa [sub_add_cancel])
  rw [unit, hlog]
  omega

theorem Around.pos {d : Dyadic} (hd : 0 < d.significand) {v : ℚ} (h : f.Around d v) : 0 < v := by
  have hone : (1 : ℚ) ≤ d.significand := by exact_mod_cast hd
  refine lt_of_lt_of_le (mul_pos ?_ (zpow_pos (by norm_num) _)) h.above
  split <;> linarith

/-- **A number around a pattern is rounded to it.** -/
theorem nearest_eq_of_around (hwidth : 1 ≤ f.width) (hpattern : pattern ≠ 0) (hfinite : pattern < f.infinity)
    {r : Ratio} (hden : 0 < r.den) (h : f.Around (f.decode pattern) r.value) : f.nearest r = pattern := by
  have hsum := f.decode_pattern pattern
  have hd := f.decode_canonical pattern
  have hvalue := h.pos (significand_pos hpattern)
  generalize f.decode pattern = d at *
  have hunit : (0 : ℚ) < 2 ^ d.exponent := zpow_pos (by norm_num) _
  have hper := Ratio.den_perPow2_pos hden (f.unit r.value)
  rw [nearest_eq (Ratio.num_pos_of_value hvalue) hden]
  rcases h.cases hd with ⟨hlow, hhigh, hbinade⟩ | ⟨hbegins, hexponent, hlow, hhigh⟩
  · -- In the unit of the pattern, the number is half a unit away from the significand at most.
    have hround : (r.perPow2 (f.unit r.value)).round = d.significand := by
      rw [unit_within hwidth hd hvalue hhigh hbinade] at hper ⊢
      refine Ratio.round_eq hper ?_ ?_ ?_
      · rwa [Ratio.value_perPow2, le_div_iff₀ hunit]
      · rw [Ratio.value_perPow2, div_le_iff₀ hunit]
        exact h.below
      · rw [Ratio.value_perPow2, div_eq_iff hunit.ne', div_eq_iff hunit.ne']
        rintro (heq | heq)
        · refine h.ends (.inl (le_antisymm ?_ h.above))
          rw [heq, low]
          gcongr
          split <;> norm_num
        · exact h.ends (.inr heq)
    rw [hround, unit_within hwidth hd hvalue hhigh hbinade, hsum, Nat.min_eq_right hfinite.le]
  · -- In half that unit, it is half a unit away from twice the significand at most, which is even.
    have hhalf : r.value / 2 ^ (d.exponent - 1) = r.value / 2 ^ d.exponent * 2 := by
      rw [zpow_sub_one₀ (by norm_num)]
      field_simp
    have hround : (r.perPow2 (f.unit r.value)).round = 2 * f.span := by
      rw [unit_below hwidth hexponent hlow hhigh] at hper ⊢
      rw [← le_div_iff₀ hunit] at hlow
      rw [← div_lt_iff₀ hunit] at hhigh
      refine Ratio.round_eq hper ?_ ?_ fun _ => by omega
      · rw [Ratio.value_perPow2, hhalf]
        push_cast
        linarith
      · rw [Ratio.value_perPow2, hhalf]
        push_cast
        linarith
    obtain ⟨field, hfield⟩ := Int.eq_ofNat_of_zero_le (show 0 ≤ d.exponent - 1 + f.depth by omega)
    have hnext : (d.exponent + f.depth).toNat = field + 1 := by omega
    have hcarry : field * f.span + 2 * f.span = pattern := by
      rw [hnext, hbegins, Nat.add_mul] at hsum
      omega
    rw [hround, unit_below hwidth hexponent hlow hhigh, hfield, Int.toNat_natCast, hcarry,
      Nat.min_eq_right hfinite.le]

end Format

end Crossover.Numeric
