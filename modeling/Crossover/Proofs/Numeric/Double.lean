/-
Crossover.Proofs.Numeric.Double — sums and products of doubles, as far as infinities go.

A double is taken apart into a sign, a significand and an exponent, or is one of the special values
(`parts`). Every result is stored before it is used again (`stored`): a number that is too large is
stored as an infinity, but no number is stored as the value that is none (`stored_finite_ne_nan`), and
what has been stored before is stored as it is (`stored_parts`).

  §1 Parts     — what storing does, and the range of what is stored.
  §2 Sums      — a sum that is not minus infinity has no term that is (`add_split`).
  §3 Signs     — a product with one or minus one is exact (`unit_mul_finite`).
-/
import Mathlib

namespace Crossover.Double

open Float.Model UnpackedFloat

/-! ## §1 Parts -/

/-- A double taken apart. -/
def parts (x : Float) : UnpackedFloat :=
  x.toModel.unpack

/-- A result as it is after it has been stored. -/
def stored (u : UnpackedFloat) : UnpackedFloat :=
  (Float.Model.pack u).unpack

theorem parts_add (x y : Float) : parts (x + y) = stored (add .binary64 (parts x) (parts y)) := rfl

theorem parts_sub (x y : Float) : parts (x - y) = stored (sub .binary64 (parts x) (parts y)) := rfl

theorem parts_mul (x y : Float) : parts (x * y) = stored (mul .binary64 (parts x) (parts y)) := rfl

theorem parts_div (x y : Float) : parts (x / y) = stored (div .binary64 (parts x) (parts y)) := rfl

@[simp] theorem stored_nan : stored .notANumber = .notANumber := rfl

@[simp] theorem stored_infinity (s : Sign) : stored (.infinity s) = .infinity s := by
  cases s <;> rfl

@[simp] theorem stored_zero (s : Sign) : stored (.zero s) = .zero s := by
  cases s <;> rfl

/-- Below the greatest exponent field, a pattern stands for a number. -/
theorem unpack_components {s : Sign} {e : BitVec Format.binary64.exponentBits}
    {m : BitVec Format.binary64.mantissaBitsWithoutImplicit} (he : e ≠ -1#_) :
    (unpack .binary64 (packComponents .binary64 s e m)).isFinite = true := by
  unfold UnpackedFloat.unpack
  simp only [unpackExponent_packComponents, unpackMantissa_packComponents]
  rw [if_neg he]
  split
  · split <;> rfl
  · rfl

/-- A number is stored as a number, or as an infinity if it is too large. -/
theorem stored_finite (s : Sign) (m : Nat) (e : Int) (h : 0 < m) :
    (stored (.finite s m e h)).isFinite = true ∨ stored (.finite s m e h) = .infinity s := by
  have hb : (Format.binary64.exponentBias : Int) = 1023 := rfl
  show (unpack .binary64 (pack .binary64 (.finite s m e h))).isFinite = true ∨
    unpack .binary64 (pack .binary64 (.finite s m e h)) = .infinity s
  unfold UnpackedFloat.pack
  dsimp only
  split
  · exact .inr (by cases s <;> rfl)
  · rename_i hsmall
    left
    split
    · refine unpack_components fun he => ?_
      have := congrArg BitVec.toNat he
      simp only [hb] at this hsmall
      simp [BitVec.toNat_ofNat] at this
      omega
    · exact unpack_components (by decide)

theorem stored_finite_ne_nan (s : Sign) (m : Nat) (e : Int) (h : 0 < m) :
    stored (.finite s m e h) ≠ .notANumber := by
  intro hn
  rcases stored_finite s m e h with hf | hi
  · rw [hn] at hf
    cases hf
  · rw [hn] at hi
    cases hi

/-- The leading digit in front of a stored significand counts two to the power 52. -/
theorem toNat_leading (v : BitVec 52) : (1#1 ++ v).toNat = 2 ^ 52 + v.toNat := by
  rw [BitVec.toNat_append, ← Nat.shiftLeft_add_eq_or_of_lt v.isLt, Nat.shiftLeft_eq]
  rfl

/-- The number that a double stands for has at most 53 binary digits, and all 53 unless its exponent
is the least one. -/
theorem parts_finite {x : Float} {s : Sign} {m : Nat} {e : Int} {h : 0 < m}
    (hx : parts x = .finite s m e h) :
    m < 2 ^ 53 ∧ -1074 ≤ e ∧ e ≤ 971 ∧ (2 ^ 52 ≤ m ∨ e = -1074) := by
  have hbias : (Format.binary64.exponentBias : Int) = 1023 := rfl
  have hx : UnpackedFloat.unpack .binary64 x.toModel.toBits.toBitVec = .finite s m e h := hx
  have hm : (@unpackMantissa .binary64 x.toModel.toBits.toBitVec).toNat < 2 ^ 52 := BitVec.isLt _
  have he : (@unpackExponent .binary64 x.toModel.toBits.toBitVec).toNat < 2 ^ 11 := BitVec.isLt _
  unfold UnpackedFloat.unpack at hx
  dsimp only at hx
  split at hx
  · split at hx <;> cases hx
  · rename_i htop
    have htop : (@unpackExponent .binary64 x.toModel.toBits.toBitVec).toNat ≠ 2047 :=
      fun hf => htop (BitVec.eq_of_toNat_eq hf)
    split at hx
    · rename_i hleast
      split at hx
      · cases hx
      · injection hx with _ hsignificand hexponent
        rw [hleast, hbias] at hexponent
        simp only [BitVec.toNat_zero] at hexponent
        omega
    · rename_i hleast
      have hleast : (@unpackExponent .binary64 x.toModel.toBits.toBitVec).toNat ≠ 0 :=
        fun hf => hleast (BitVec.eq_of_toNat_eq hf)
      injection hx with _ hsignificand hexponent
      have hsum := hsignificand.symm.trans (toNat_leading _)
      rw [hbias] at hexponent
      omega

/-- The sign of a stored number. -/
theorem unpackSign_packComponents {spec : Format} {s : Sign} {e : BitVec spec.exponentBits}
    {m : BitVec spec.mantissaBitsWithoutImplicit} :
    unpackSign (packComponents spec s e m) = s.toBitVec := by
  ext i hi
  simp only [unpackSign, packComponents, BitVec.extractLsb, BitVec.getElem_cast,
    BitVec.getElem_extractLsb', BitVec.getLsbD_append]
  rw [if_neg (by omega), if_neg (by omega), show spec.mantissaBitsWithoutImplicit +
    spec.exponentBits + i - spec.mantissaBitsWithoutImplicit - spec.exponentBits = i by omega,
    BitVec.getLsbD_eq_getElem]

theorem sign_packComponents (s : Sign) (e : BitVec Format.binary64.exponentBits)
    (m : BitVec Format.binary64.mantissaBitsWithoutImplicit) :
    Sign.ofBitVec (unpackSign (packComponents .binary64 s e m)) = s := by
  rw [unpackSign_packComponents]
  cases s <;> rfl

theorem unpack_normal {s : Sign} {e : BitVec Format.binary64.exponentBits}
    {m : BitVec Format.binary64.mantissaBitsWithoutImplicit} (hmax : e ≠ -1#_) (hmin : e ≠ 0#_) :
    unpack .binary64 (packComponents .binary64 s e m) =
      .finite s (2 ^ 52 + m.toNat) (e.toNat - 1075) (Nat.add_pos_left (by decide) _) := by
  unfold UnpackedFloat.unpack
  simp only [unpackExponent_packComponents, unpackMantissa_packComponents, sign_packComponents]
  rw [if_neg hmax, if_neg hmin]
  congr 1
  exact toNat_leading m

theorem unpack_subnormal {s : Sign} {m : BitVec Format.binary64.mantissaBitsWithoutImplicit}
    (hm : 0 < m.toNat) :
    unpack .binary64 (packComponents .binary64 s 0#_ m) = .finite s m.toNat (-1074) hm := by
  have hne : m ≠ 0#_ := by
    rintro rfl
    cases hm
  unfold UnpackedFloat.unpack
  simp only [unpackExponent_packComponents, unpackMantissa_packComponents, sign_packComponents]
  rw [if_neg (by decide), if_pos trivial, dif_neg hne]
  rfl

/-- A number that is not too large is stored with its exponent if it has all 53 digits, and without one
otherwise. -/
theorem pack_finite (s : Sign) {m : Nat} {e : Int} (h : 0 < m) (hu : e ≤ 971) :
    pack .binary64 (.finite s m e h) =
      if m.log2 + 1 = Format.binary64.mantissaBits then
        packComponents .binary64 s (BitVec.ofNat _ (e + 1075).toNat) (BitVec.ofNat _ m)
      else packComponents .binary64 s 0#_ (BitVec.ofNat _ m) := by
  have hfield : (e + Format.binary64.exponentBias +
      Format.binary64.mantissaBitsWithoutImplicit).toNat = (e + 1075).toNat := by
    congr 1
    show e + 1023 + 52 = e + 1075
    omega
  have hsmall : ¬ 2 ^ Format.binary64.exponentBits ≤ (e + 1075).toNat + 1 := by
    show ¬ 2 ^ 11 ≤ (e + 1075).toNat + 1
    omega
  unfold UnpackedFloat.pack
  dsimp only
  rw [hfield, if_neg hsmall]

theorem stored_normal (s : Sign) {m : Nat} {e : Int} (h : 0 < m) (hm : m < 2 ^ 53) (hl : -1074 ≤ e)
    (hu : e ≤ 971) (hdigits : 2 ^ 52 ≤ m) : stored (.finite s m e h) = .finite s m e h := by
  have hlog : m.log2 + 1 = Format.binary64.mantissaBits := by
    have hlower : 52 ≤ m.log2 := (Nat.le_log2 (Nat.ne_of_gt h)).2 hdigits
    have hupper : m.log2 < 53 := (Nat.log2_lt (Nat.ne_of_gt h)).2 hm
    show m.log2 + 1 = 53
    omega
  have hexponent : (BitVec.ofNat Format.binary64.exponentBits (e + 1075).toNat).toNat =
      (e + 1075).toNat := by
    rw [BitVec.toNat_ofNat]
    exact Nat.mod_eq_of_lt (show (e + 1075).toNat < 2 ^ 11 by omega)
  have hmantissa : 2 ^ 52 + (BitVec.ofNat Format.binary64.mantissaBitsWithoutImplicit m).toNat = m := by
    rw [BitVec.toNat_ofNat]
    show 2 ^ 52 + m % 2 ^ 52 = m
    omega
  have hdifference :
      ((BitVec.ofNat Format.binary64.exponentBits (e + 1075).toNat).toNat : Int) - 1075 = e := by
    rw [hexponent]
    omega
  show unpack .binary64 (pack .binary64 (.finite s m e h)) = _
  rw [pack_finite s h hu, if_pos hlog, unpack_normal]
  · congr 1
  · intro hmax
    rw [hmax] at hexponent
    have : 2047 = (e + 1075).toNat := hexponent
    omega
  · intro hmin
    rw [hmin] at hexponent
    have : 0 = (e + 1075).toNat := hexponent
    omega

theorem stored_subnormal (s : Sign) {m : Nat} (h : 0 < m) (hdigits : m < 2 ^ 52) :
    stored (.finite s m (-1074) h) = .finite s m (-1074) h := by
  have hlog : m.log2 + 1 ≠ Format.binary64.mantissaBits := by
    have hupper : m.log2 < 52 := (Nat.log2_lt (Nat.ne_of_gt h)).2 hdigits
    show m.log2 + 1 ≠ 53
    omega
  have hmantissa : (BitVec.ofNat Format.binary64.mantissaBitsWithoutImplicit m).toNat = m := by
    rw [BitVec.toNat_ofNat]
    exact Nat.mod_eq_of_lt hdigits
  show unpack .binary64 (pack .binary64 (.finite s m (-1074) h)) = _
  rw [pack_finite s h (by decide), if_neg hlog, unpack_subnormal (by rwa [hmantissa])]
  congr 1

/-- A number with the digits and the exponent of a double is stored as it is. -/
theorem stored_exact (s : Sign) {m : Nat} {e : Int} (h : 0 < m) (hm : m < 2 ^ 53) (hl : -1074 ≤ e)
    (hu : e ≤ 971) (hn : 2 ^ 52 ≤ m ∨ e = -1074) :
    stored (.finite s m e h) = .finite s m e h := by
  by_cases hdigits : 2 ^ 52 ≤ m
  · exact stored_normal s h hm hl hu hdigits
  · obtain rfl := hn.resolve_left hdigits
    exact stored_subnormal s h (Nat.lt_of_not_le hdigits)

/-- A double is stored as it is. -/
theorem stored_parts (x : Float) : stored (parts x) = parts x := by
  cases hx : parts x with
  | notANumber => rfl
  | infinity s => exact stored_infinity s
  | zero s => exact stored_zero s
  | finite s m e h =>
    obtain ⟨hm, hl, hu, hn⟩ := parts_finite hx
    exact stored_exact s h hm hl hu hn

/-! ## §2 Sums -/

/-- Above minus infinity: a number or plus infinity. -/
def isAbove : UnpackedFloat → Bool
  | .notANumber => false
  | .infinity .negative => false
  | _ => true

theorem isAbove_of_isFinite {u : UnpackedFloat} (h : u.isFinite = true) : isAbove u = true := by
  cases u with
  | notANumber => cases h
  | infinity s => cases h
  | zero s => rfl
  | finite s m e hm => rfl

theorem isAbove_of_ne {u : UnpackedFloat} (hnan : u ≠ .notANumber) (hlost : u ≠ .infinity .negative) :
    isAbove u = true := by
  cases u with
  | notANumber => exact absurd rfl hnan
  | infinity s =>
    cases s with
    | positive => rfl
    | negative => exact absurd rfl hlost
  | zero s => rfl
  | finite s m e hm => rfl

/-- Rounding gives a number, and no number is stored as the value that is none. -/
theorem stored_round_ne_nan (s : Sign) (m : Nat) (e : Int) (a : Accuracy) :
    stored (roundWithAccuracy .binary64 s m e a) ≠ .notANumber := by
  unfold roundWithAccuracy
  dsimp only
  split
  · simp
  · exact stored_finite_ne_nan _ _ _ _

theorem stored_normalize_ne_nan (m e : Int) (s : Sign) :
    stored (UnpackedFloat.normalize .binary64 m e s) ≠ .notANumber := by
  unfold UnpackedFloat.normalize
  split
  · exact stored_round_ne_nan _ _ _ _
  · simp
  · exact stored_round_ne_nan _ _ _ _

theorem isAbove_add_left {u : UnpackedFloat} (h : isAbove u = false) (v : UnpackedFloat) :
    isAbove (stored (UnpackedFloat.add .binary64 u v)) = false := by
  cases u with
  | notANumber => simp [UnpackedFloat.add, isAbove]
  | infinity s =>
    cases s with
    | positive => cases h
    | negative =>
      cases v with
      | infinity t => cases t <;> rfl
      | _ => simp [UnpackedFloat.add, isAbove]
  | zero s => cases h
  | finite s m e hm => cases h

theorem isAbove_add_right (u : UnpackedFloat) {v : UnpackedFloat} (h : isAbove v = false) :
    isAbove (stored (UnpackedFloat.add .binary64 u v)) = false := by
  cases v with
  | notANumber => cases u <;> simp [UnpackedFloat.add, isAbove]
  | infinity s =>
    cases s with
    | positive => cases h
    | negative =>
      cases u with
      | infinity t => cases t <;> rfl
      | _ => simp [UnpackedFloat.add, isAbove]
  | zero s => cases h
  | finite s m e hm => cases h

/-- A sum above minus infinity has both its terms above minus infinity. -/
theorem add_split {x y : Float} (h : isAbove (parts (x + y)) = true) :
    isAbove (parts x) = true ∧ isAbove (parts y) = true := by
  rw [parts_add] at h
  constructor
  · cases hx : isAbove (parts x) with
    | true => rfl
    | false => rw [isAbove_add_left hx] at h; cases h
  · cases hy : isAbove (parts y) with
    | true => rfl
    | false => rw [isAbove_add_right _ hy] at h; cases h

theorem add_isAbove_ne_nan {u v : UnpackedFloat} (hu : isAbove u = true) (hv : isAbove v = true) :
    stored (UnpackedFloat.add .binary64 u v) ≠ .notANumber := by
  cases u with
  | notANumber => cases hu
  | infinity s =>
    cases s with
    | negative => cases hu
    | positive =>
      cases v with
      | notANumber => cases hv
      | infinity t =>
        cases t with
        | negative => cases hv
        | positive => nofun
      | _ => simp [UnpackedFloat.add]
  | zero s =>
    cases v with
    | notANumber => cases hv
    | infinity t => simp [UnpackedFloat.add]
    | zero t => cases s <;> cases t <;> nofun
    | finite t n f hn => exact stored_finite_ne_nan _ _ _ _
  | finite s m e hm =>
    cases v with
    | notANumber => cases hv
    | infinity t => simp [UnpackedFloat.add]
    | zero t => exact stored_finite_ne_nan _ _ _ _
    | finite t n f hn => exact stored_normalize_ne_nan _ _ _

/-- Two terms above minus infinity have a sum. -/
theorem add_ne_nan {x y : Float} (hx : isAbove (parts x) = true) (hy : isAbove (parts y) = true) :
    parts (x + y) ≠ .notANumber := by
  rw [parts_add]
  exact add_isAbove_ne_nan hx hy

/-! ## §3 Signs -/

/-- Digits that are all zero are shifted out without a trace. -/
theorem shift_exact (k m : Nat) :
    (⟨m * 2 ^ k, false, false⟩ : ExtendedMantissa) >>> k = ⟨m, false, false⟩ := by
  show Nat.repeat ExtendedMantissa.shiftRightOne k ⟨m * 2 ^ k, false, false⟩ = _
  induction k generalizing m with
  | zero => simp [Nat.repeat]
  | succ k ih =>
    rw [Nat.repeat, Nat.pow_succ', ← Nat.mul_assoc, ih]
    simp [ExtendedMantissa.shiftRightOne]

theorem log2_mul_pow {m : Nat} (h : 0 < m) (k : Nat) : (m * 2 ^ k).log2 = m.log2 + k := by
  induction k with
  | zero => simp
  | succ k ih =>
    have hpos : m * 2 ^ k ≠ 0 := Nat.ne_of_gt (Nat.mul_pos h (Nat.two_pow_pos k))
    rw [Nat.pow_succ', Nat.mul_left_comm, Nat.log2_two_mul hpos, ih, Nat.add_assoc]

/-- The exponent of a double is the one that its number is rounded to. -/
theorem targetExponent_eq {m : Nat} {e : Int} (h : 0 < m) (hm : m < 2 ^ 53) (hl : -1074 ≤ e)
    (hn : 2 ^ 52 ≤ m ∨ e = -1074) (k : Nat) :
    Format.binary64.targetExponent (totalExponent (m * 2 ^ k) (e - k)) = e := by
  have hlog : m.log2 < 53 := (Nat.log2_lt (Nat.ne_of_gt h)).2 hm
  show max ((((m * 2 ^ k).log2 : Int) + 1 + (e - k)) - 53) (-1074) = e
  rw [log2_mul_pow h]
  rcases hn with hn | rfl
  · have : 52 ≤ m.log2 := (Nat.le_log2 (Nat.ne_of_gt h)).2 hn
    omega
  · omega

/-- Shifting a number that is a double to its exponent drops only the zeros behind its digits. -/
theorem shiftToTargetExponent_eq {m : Nat} {e : Int} (h : 0 < m) (hm : m < 2 ^ 53) (hl : -1074 ≤ e)
    (hn : 2 ^ 52 ≤ m ∨ e = -1074) (k : Nat) :
    shiftToTargetExponent .binary64 (m * 2 ^ k) (e - k) .exact = (⟨m, false, false⟩, e) := by
  have hk : (e - (e - k)).toNat = k := by omega
  have he : e - k + k = e := by omega
  unfold shiftToTargetExponent shiftToExponent
  simp only [targetExponent_eq h hm hl hn, hk, ExtendedMantissa.ofMantissaAndAccuracy, shift_exact, he]

/-- A number that is a double is rounded to itself. -/
theorem round_exact (s : Sign) {m : Nat} {e : Int} (h : 0 < m) (hm : m < 2 ^ 53) (hl : -1074 ≤ e)
    (hn : 2 ^ 52 ≤ m ∨ e = -1074) (k : Nat) :
    roundWithAccuracy .binary64 s (m * 2 ^ k) (e - k) .exact = .finite s m e h := by
  have hagain := shiftToTargetExponent_eq h hm hl hn 0
  rw [Nat.pow_zero, Nat.mul_one, Int.natCast_zero, Int.sub_zero] at hagain
  have hrounded : (⟨m, false, false⟩ : ExtendedMantissa).roundedMantissa = m := rfl
  unfold roundWithAccuracy
  simp only [shiftToTargetExponent_eq h hm hl hn k, hrounded, hagain]
  exact dif_neg (Nat.ne_of_gt h)

/-- One, with a sign. -/
def unit : Sign → Float
  | .positive => 1.0
  | .negative => -1.0

theorem parts_unit (s : Sign) : parts (unit s) = .finite s (2 ^ 52) (-52) (by decide) := by
  cases s <;> rfl

theorem unit_mul_infinity (s t : Sign) {x : Float} (h : parts x = .infinity t) :
    parts (unit s * x) = .infinity (s * t) := by
  rw [parts_mul, parts_unit, h]
  exact stored_infinity _

/-- A number times one or minus one is a number again: nothing is rounded. -/
theorem unit_mul_finite (s : Sign) {x : Float} (h : (parts x).isFinite = true) :
    (parts (unit s * x)).isFinite = true := by
  rw [parts_mul, parts_unit]
  cases hx : parts x with
  | notANumber => rw [hx] at h; cases h
  | infinity t => rw [hx] at h; cases h
  | zero t => exact congrArg UnpackedFloat.isFinite (stored_zero _)
  | finite t m e hm =>
    obtain ⟨hlt, hleast, hgreatest, hnormal⟩ := parts_finite hx
    have hproduct : mul .binary64 (.finite s (2 ^ 52) (-52) (by decide)) (.finite t m e hm) =
        .finite (s * t) m e hm := by
      have := round_exact (s * t) hm hlt hleast hnormal 52
      rw [Nat.mul_comm, Int.sub_eq_add_neg, Int.add_comm] at this
      exact this
    rw [hproduct, stored_exact (s * t) hm hlt hleast hgreatest hnormal]
    rfl

end Crossover.Double
