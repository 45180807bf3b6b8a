/-
Crossover.Proofs.Numeric.RoundTrip — doubles that are written are read back.

A double is put together from its sign and its pattern (`ofPattern_patternOf`). The shortest decimal lies around the
pattern, its layout says a decimal of the same value, and what lies around a pattern is read as the double of the
pattern. So a finite double is read back from its text in every style (`read?_write`), bit for bit: minus zero keeps
its sign.

  §1 Patterns — doubles as signs and patterns.
  §2 Texts    — reading what has been written.
-/
import Crossover.Proofs.Numeric.Spelling

namespace Crossover.Numeric

open Format (double)

/-! ## §1 Patterns -/

/-- A double is put together from its sign and its pattern. -/
theorem ofPattern_patternOf (x : Float) : ofPattern (isNegative x) (patternOf x) = x := by
  have hbound : x.toBits.toNat < 2 * signBit := x.toBits.toNat_lt
  have hbits : (if isNegative x then signBit + patternOf x else patternOf x) = x.toBits.toNat := by
    simp only [isNegative, patternOf, decide_eq_true_eq]
    generalize x.toBits.toNat = bits at *
    split
    · rw [Nat.mod_eq_sub_mod (by assumption), Nat.mod_eq_of_lt (by omega)]
      omega
    · rw [Nat.mod_eq_of_lt (by omega)]
  rw [ofPattern, hbits, UInt64.ofNat_toNat, Float.ofBits_toBits]

/-- A finite double has a finite pattern. -/
theorem patternOf_lt_infinity {x : Float} (h : x.isFinite = true) : patternOf x < double.infinity := by
  have hbound : x.toBits.toNat < 2 * signBit := x.toBits.toNat_lt
  have htop : (@Float.Model.UnpackedFloat.unpackExponent .binary64 x.toBits.toBitVec).toNat ≠ 2047 := by
    intro htop
    have hexponent : @Float.Model.UnpackedFloat.unpackExponent .binary64 x.toBits.toBitVec = -1#_ :=
      BitVec.eq_of_toNat_eq htop
    have hfinite : (Float.Model.UnpackedFloat.unpack .binary64 x.toBits.toBitVec).isFinite = true := h
    rw [Float.Model.UnpackedFloat.unpack] at hfinite
    simp only [hexponent, if_true] at hfinite
    split at hfinite <;> cases hfinite
  have hfield : (@Float.Model.UnpackedFloat.unpackExponent .binary64 x.toBits.toBitVec).toNat =
      x.toBits.toNat / 2 ^ 52 % 2 ^ 11 := by
    rw [Float.Model.UnpackedFloat.unpackExponent_def, BitVec.extractLsb'_toNat, Nat.shiftRight_eq_div_pow]
    rfl
  rw [hfield] at htop
  have hinfinity : double.infinity = 2047 * 2 ^ 52 := rfl
  have hsign : signBit = 2 ^ 63 := rfl
  rw [hinfinity, patternOf, hsign]
  rw [hsign] at hbound
  omega

/-! ## §2 Texts -/

namespace NumeralStyle

variable {x : Float}

/-- A finite double is written as a decimal that is read as this double. -/
theorem exists_says_write (style : NumeralStyle) (h : x.isFinite = true) :
    ∃ (s : Spelling) (d : Decimal), style.write x = (if isNegative x then ['-'] else []) ++ s.chars ∧ s.Says d ∧
      (⟨isNegative x, d⟩ : Numeral).toFloat = x := by
  have hwrite : style.write x = (if isNegative x then ['-'] else []) ++
      (if patternOf x = 0 then ['0', '.', '0'] else style.layout (shortest (patternOf x))) := by
    rw [write]
    split <;> simp [*]
  have hdouble := ofPattern_patternOf x
  have hfinite := patternOf_lt_infinity h
  generalize isNegative x = negative at *
  generalize patternOf x = pattern at *
  by_cases hzero : pattern = 0
  · rw [if_pos hzero] at hwrite
    have hone : (-1 : Int) + (['0'] : List Char).length = 0 := rfl
    refine ⟨⟨['0'], ['0'], []⟩, ⟨0, -1⟩, hwrite, ⟨.inl rfl, by simp, hone ▸ .none, rfl⟩, ?_⟩
    rw [← hdouble, hzero]
    rfl
  · rw [if_neg hzero] at hwrite
    have haround := around_shortest hzero
    obtain ⟨hsignificand, -, -⟩ := magnitude_bounds hzero hfinite haround
    obtain ⟨s, e, hlayout, hsays, hvalue⟩ := Spelling.exists_says_layout style hsignificand
    rw [hlayout] at hwrite
    refine ⟨s, e, hwrite, hsays, ?_⟩
    rw [← hdouble]
    refine toFloat_of_around hzero hfinite ?_
    rwa [hvalue]

/-- **A finite double survives being written**, in every style. -/
theorem read?_write (style : NumeralStyle) (h : x.isFinite = true) :
    ∃ n, Numeral.read? (style.write x) = some n ∧ n.toFloat = x := by
  obtain ⟨s, d, hwrite, hsays, hdouble⟩ := style.exists_says_write h
  exact ⟨_, by rw [hwrite, Spelling.read?_chars hsays], hdouble⟩

/-- Different finite doubles have different texts. -/
theorem write_injective (style : NumeralStyle) {y : Float} (hx : x.isFinite = true) (hy : y.isFinite = true)
    (h : style.write x = style.write y) : x = y := by
  obtain ⟨m, hm, hmx⟩ := style.read?_write hx
  obtain ⟨n, hn, hny⟩ := style.read?_write hy
  rw [h, hn] at hm
  cases hm
  exact hmx.symm.trans hny

theorem isNumeric_of_mem_write (style : NumeralStyle) (h : x.isFinite = true) :
    ∀ c ∈ style.write x, Spelling.isNumeric c = true := by
  obtain ⟨s, d, hwrite, hsays, -⟩ := style.exists_says_write h
  intro c hc
  rw [hwrite, List.mem_append] at hc
  rcases hc with hsign | hchars
  · split at hsign
    · rw [List.mem_singleton.1 hsign]
      rfl
    · cases hsign
  · exact hsays.isNumeric c hchars

/-- What is written for a finite double is the literal of a number in data. -/
theorem number?_write (style : NumeralStyle) (h : x.isFinite = true) {rest : List Char} (hrest : Json.Ends rest) :
    Json.number? (style.write x ++ rest) = some (style.write x, rest) := by
  obtain ⟨s, d, hwrite, hsays, -⟩ := style.exists_says_write h
  rw [hwrite, List.append_assoc]
  exact Spelling.number?_chars hsays _ hrest

theorem write_eq_cons (style : NumeralStyle) (h : x.isFinite = true) :
    ∃ c rest, style.write x = c :: rest ∧ (c = '-' ∨ c.isDigit = true) := by
  obtain ⟨s, d, hwrite, hsays, -⟩ := style.exists_says_write h
  obtain ⟨c, rest, hchars, hdigit⟩ := hsays.head
  rw [hwrite, hchars]
  split
  · exact ⟨_, _, rfl, .inl rfl⟩
  · exact ⟨c, rest, rfl, .inr hdigit⟩

end NumeralStyle

end Crossover.Numeric
