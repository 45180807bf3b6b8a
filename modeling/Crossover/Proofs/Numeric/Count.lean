/-
Crossover.Proofs.Numeric.Count — a positive count is not zero as a double.

A count with 53 binary digits at most is written out as a double and multiplied by one; a greater one is
rounded. Rounding could lose a number only if it were finer than the least double, which no whole number
is: what is left has one digit at least and 53 at most (`round_bounds`), and such a number is not stored
as zero (`stored_ne_zero`).

  §1 Rounding — what is left of a positive number.
  §2 Storing  — as a number, or as an infinity if it is too large.
  §3 Counts   — both ways to a double.
-/
import Crossover.Proofs.Numeric.Order

namespace Crossover.Double

open Float.Model UnpackedFloat

/-! ## §1 Rounding -/

theorem mantissa_shiftRight (em : ExtendedMantissa) (k : Nat) :
    (em >>> k).mantissa = em.mantissa / 2 ^ k := by
  show (Nat.repeat ExtendedMantissa.shiftRightOne k em).mantissa = _
  induction k with
  | zero => simp [Nat.repeat]
  | succ k ih =>
    rw [Nat.repeat, Nat.pow_succ, ← Nat.div_div_eq_div_mul, ← ih]
    rfl

theorem mantissa_ofMantissaAndAccuracy (m : Nat) (a : Accuracy) :
    (ExtendedMantissa.ofMantissaAndAccuracy m a).mantissa = m := by
  cases a with
  | exact => rfl
  | inexact order => cases order <;> rfl

/-- Rounding does not go below what has been shifted. -/
theorem le_roundedMantissa (em : ExtendedMantissa) : em.mantissa ≤ em.roundedMantissa := by
  unfold ExtendedMantissa.roundedMantissa
  cases em.accuracy with
  | exact => exact Nat.le_refl _
  | inexact order => cases order <;> simp [Accuracy.roundToNearestEven]

/-- A positive number that is not finer than the least double keeps some of its digits, 53 at most, when it
is shifted to its exponent. -/
theorem shift_bounds {m : Nat} {e : Int} (hm : 0 < m) (he : -1074 ≤ e) (a : Accuracy) :
    0 < (shiftToTargetExponent .binary64 m e a).1.mantissa ∧
      (shiftToTargetExponent .binary64 m e a).1.mantissa < 2 ^ 53 ∧
      e ≤ (shiftToTargetExponent .binary64 m e a).2 := by
  obtain ⟨k, hk⟩ : ∃ k, k = (Format.binary64.targetExponent (totalExponent m e) - e).toNat := ⟨_, rfl⟩
  have htarget : k = m.log2 - 52 := by
    rw [hk]
    show (max ((m.log2 : Int) + 1 + e - 53) (-1074) - e).toNat = m.log2 - 52
    omega
  unfold shiftToTargetExponent shiftToExponent
  simp only [← hk, mantissa_shiftRight, mantissa_ofMantissaAndAccuracy]
  have hlower : 2 ^ k ≤ m := by
    refine (Nat.pow_le_pow_right (by decide) ?_).trans (Nat.log2_self_le (Nat.ne_of_gt hm))
    omega
  have hupper : m < 2 ^ 53 * 2 ^ k := by
    rw [← Nat.pow_add, ← Nat.log2_lt (Nat.ne_of_gt hm)]
    omega
  refine ⟨Nat.div_pos hlower (Nat.two_pow_pos k), ?_, by omega⟩
  exact Nat.div_lt_of_lt_mul (by rwa [Nat.mul_comm])

/-- Such a number is rounded to a number with 53 digits at most. -/
theorem round_bounds (s : Sign) {m : Nat} {e : Int} (hm : 0 < m) (he : -1074 ≤ e) (a : Accuracy) :
    ∃ m' e' h, roundWithAccuracy .binary64 s m e a = .finite s m' e' h ∧ m' < 2 ^ 53 ∧
      -1074 ≤ e' := by
  obtain ⟨hpos, -, hle⟩ := shift_bounds hm he a
  obtain ⟨hpos', hlt', hle'⟩ := shift_bounds (hpos.trans_le (le_roundedMantissa _)) (he.trans hle) .exact
  refine ⟨_, _, hpos', ?_, hlt', he.trans (hle.trans hle')⟩
  unfold roundWithAccuracy
  exact dif_neg (Nat.ne_of_gt hpos')

/-! ## §2 Storing -/

/-- What is too large is stored as an infinity. -/
theorem stored_large (s : Sign) {m : Nat} {e : Int} (h : 0 < m) (hu : 971 < e) :
    stored (.finite s m e h) = .infinity s := by
  have hfield : 2 ^ Format.binary64.exponentBits ≤ (e + Format.binary64.exponentBias +
      Format.binary64.mantissaBitsWithoutImplicit).toNat + 1 := by
    show 2 ^ 11 ≤ (e + 1023 + 52).toNat + 1
    omega
  show unpack .binary64 (pack .binary64 (.finite s m e h)) = _
  unfold UnpackedFloat.pack
  dsimp only
  rw [if_pos hfield]
  cases s <;> rfl

/-- A positive number with 53 digits at most is not stored as zero. -/
theorem stored_ne_zero (s t : Sign) {m : Nat} {e : Int} (h : 0 < m) (hm : m < 2 ^ 53)
    (he : -1074 ≤ e) : stored (.finite s m e h) ≠ .zero t := by
  by_cases hu : e ≤ 971
  · by_cases hdigits : 2 ^ 52 ≤ m
    · rw [stored_normal s h hm he hu hdigits]
      nofun
    · have hlog : m.log2 + 1 ≠ Format.binary64.mantissaBits := by
        have hupper : m.log2 < 52 := (Nat.log2_lt (Nat.ne_of_gt h)).2 (Nat.lt_of_not_le hdigits)
        show m.log2 + 1 ≠ 53
        omega
      have hmantissa : 0 < (BitVec.ofNat Format.binary64.mantissaBitsWithoutImplicit m).toNat := by
        rw [BitVec.toNat_ofNat]
        show 0 < m % 2 ^ 52
        omega
      show unpack .binary64 (pack .binary64 (.finite s m e h)) ≠ _
      rw [pack_finite s h hu, if_neg hlog, unpack_subnormal hmantissa]
      nofun
  · rw [stored_large s h (Int.lt_of_not_ge hu)]
    nofun

theorem stored_round_ne_zero (s t : Sign) {m : Nat} {e : Int} (hm : 0 < m) (he : -1074 ≤ e)
    (a : Accuracy) : stored (roundWithAccuracy .binary64 s m e a) ≠ .zero t := by
  obtain ⟨m', e', h, hround, hlt, hle⟩ := round_bounds s hm he a
  rw [hround]
  exact stored_ne_zero s t h hlt hle

/-! ## §3 Counts -/

/-- A number times one is the same number. -/
theorem parts_mul_one {x : Float} {s : Sign} {m : Nat} {e : Int} {h : 0 < m}
    (hx : parts x = .finite s m e h) : parts (x * 1.0) = parts x := by
  obtain ⟨hlt, hleast, hgreatest, hnormal⟩ := parts_finite hx
  have hone : parts 1.0 = .finite .positive (2 ^ 52) (-52) (by decide) := rfl
  have hproduct : mul .binary64 (.finite s m e h) (.finite .positive (2 ^ 52) (-52) (by decide)) =
      .finite (s * .positive) m e h := by
    have hround := round_exact (s * .positive) h hlt hleast hnormal 52
    rw [Int.sub_eq_add_neg] at hround
    exact hround
  have hsign : s * Sign.positive = s := by cases s <;> rfl
  rw [parts_mul, hx, hone, hproduct, hsign, stored_exact s h hlt hleast hgreatest hnormal]

/-- Whole numbers are given all their digits before they are rounded. -/
theorem stored_normalize_ne_zero {n : Nat} (h : 0 < n) (s t : Sign) :
    stored (UnpackedFloat.normalize .binary64 (n : Int) 0 s) ≠ .zero t := by
  have hpositive : compare (n : Int) 0 = .gt := Int.compare_eq_gt.2 (by omega)
  unfold UnpackedFloat.normalize
  rw [hpositive]
  refine stored_round_ne_zero _ t ?_ ?_ .exact
  · rw [Int.toNat_natCast, Nat.shiftLeft_eq]
    exact Nat.mul_pos h (Nat.two_pow_pos _)
  · rw [Int.toNat_natCast]
    show -1074 ≤ 0 - ((0 - max ((n.log2 : Int) + 1 + 0 - 53) (-1074)).toNat : Int)
    omega

theorem mul_one_ne_zero {x : Float} (h : ∀ t, parts x ≠ .zero t) (t : Sign) :
    parts (x * 1.0) ≠ .zero t := by
  cases hx : parts x with
  | notANumber =>
    rw [parts_mul, hx]
    nofun
  | infinity s =>
    have hinfinity : parts (x * 1.0) = .infinity (s * .positive) := by
      rw [parts_mul, hx]
      exact stored_infinity _
    rw [hinfinity]
    nofun
  | zero s => exact absurd hx (h s)
  | finite s m e hm =>
    rw [parts_mul_one hx, hx]
    nofun

theorem parts_ofNat_ne_zero {n : Nat} (h : 0 < n) (t : Sign) : parts (Float.ofNat n) ≠ .zero t := by
  show parts (Float.ofScientific n false 0) ≠ .zero t
  unfold Float.ofScientific
  split
  · rename_i hsmall
    have hn : n.toUInt64.toNat = n := Nat.mod_eq_of_lt (hsmall.1.trans (by decide))
    refine mul_one_ne_zero (fun t => ?_) t
    show stored (UnpackedFloat.normalize .binary64 (n.toUInt64.toNat : Int) 0 .positive) ≠ .zero t
    rw [hn]
    exact stored_normalize_ne_zero h .positive t
  · show stored (UnpackedFloat.ofScientific .binary64 n 0) ≠ .zero t
    unfold UnpackedFloat.ofScientific
    have hbits : (2 : Int) ^ Format.binary64.exponentBits = 2048 := rfl
    rw [dif_neg (Nat.ne_of_gt h), if_neg (by omega), if_neg (by omega), if_pos (by omega)]
    simp only [UnpackedFloat.mul]
    refine stored_round_ne_zero _ t ?_ (by decide) .exact
    rw [Nat.shiftLeft_eq]
    exact Nat.mul_pos (Nat.mul_pos h (Nat.two_pow_pos _)) (Nat.pow_pos (by decide))

/-- **A positive count is not zero** as a double, however large it is. -/
theorem ofNat_ne_zero {n : Nat} (h : 0 < n) : ¬ (Float.ofNat n == 0.0) = true := by
  have hzero : parts 0.0 = .zero .positive := rfl
  rw [beq_iff_compare, hzero]
  cases hn : parts (Float.ofNat n) with
  | notANumber => nofun
  | infinity s => cases s <;> nofun
  | zero t => exact absurd hn (parts_ofNat_ne_zero h t)
  | finite s m e hm => cases s <;> nofun

end Crossover.Double
