/-
Crossover.Proofs.Numeric.Order — the order of doubles.

Doubles are compared part by part, with a case for every pair of shapes. `rank` puts all of them but the
value that is no number on one line: by sign first, then by exponent and significand, which count backwards
below zero. One double is less than another exactly if both have a rank and that of the first is less
(`lt_iff_rank`), so that the laws of `<` are those of a linear order.

  §1 Ranks    — the line, and comparison of parts.
  §2 Less     — `<` by rank: irreflexive, transitive, and linear among numbers.
  §3 Equality — `≤` and `==` among numbers, which go by comparison as well.
-/
import Crossover.Proofs.Numeric.Double

namespace Crossover.Double

open Float.Model UnpackedFloat

/-! ## §1 Ranks -/

/-- The place of a double on the line; none for the value that is no number. -/
def rank : UnpackedFloat → Option (ℤ ×ₗ ℤ ×ₗ ℤ)
  | .notANumber => none
  | .infinity .negative => some (toLex (-2, toLex (0, 0)))
  | .finite .negative m e _ => some (toLex (-1, toLex (-e, -m)))
  | .zero _ => some (toLex (0, toLex (0, 0)))
  | .finite .positive m e _ => some (toLex (1, toLex (e, m)))
  | .infinity .positive => some (toLex (2, toLex (0, 0)))

theorem lt_toLex_iff (a b c a' b' c' : ℤ) :
    toLex (a, toLex (b, c)) < toLex (a', toLex (b', c')) ↔
      a < a' ∨ a = a' ∧ (b < b' ∨ b = b' ∧ c < c') := by
  rw [Prod.Lex.toLex_lt_toLex, Prod.Lex.toLex_lt_toLex]

/-- Exponents are compared first, and then significands. -/
theorem then_eq_lt_iff (d e : ℤ) (m n : ℕ) :
    (compare d e).then (compare m n) = .lt ↔ d < e ∨ d = e ∧ m < n := by
  rw [Ordering.then_eq_lt, Int.compare_eq_lt, Int.compare_eq_eq, Nat.compare_eq_lt]

theorem then_eq_gt_iff (d e : ℤ) (m n : ℕ) :
    (compare d e).then (compare m n) = .gt ↔ e < d ∨ d = e ∧ n < m := by
  rw [Ordering.then_eq_gt, Int.compare_eq_gt, Int.compare_eq_eq, Nat.compare_eq_gt]

/-- Parts are compared by rank. -/
theorem compare_eq_lt_iff (u v : UnpackedFloat) :
    u.compare v = some .lt ↔ ∃ a ∈ rank u, ∃ b ∈ rank v, a < b := by
  cases u with
  | notANumber => simp [UnpackedFloat.compare, rank]
  | infinity s =>
    cases v with
    | notANumber => cases s <;> simp [UnpackedFloat.compare, rank]
    | infinity t => cases s <;> cases t <;> simp [rank, lt_toLex_iff] <;> decide
    | zero t => cases s <;> simp [UnpackedFloat.compare, rank, lt_toLex_iff]
    | finite t n d hn => cases s <;> cases t <;> simp [UnpackedFloat.compare, rank, lt_toLex_iff]
  | zero s =>
    cases v with
    | notANumber => simp [UnpackedFloat.compare, rank]
    | infinity t => cases t <;> simp [UnpackedFloat.compare, rank, lt_toLex_iff]
    | zero t => simp [UnpackedFloat.compare, rank]
    | finite t n d hn => cases t <;> simp [UnpackedFloat.compare, rank, lt_toLex_iff]
  | finite s m e hm =>
    cases v with
    | notANumber => cases s <;> simp [UnpackedFloat.compare, rank]
    | infinity t => cases s <;> cases t <;> simp [UnpackedFloat.compare, rank, lt_toLex_iff]
    | zero t => cases s <;> simp [UnpackedFloat.compare, rank, lt_toLex_iff]
    | finite t n d hn =>
      cases s <;> cases t <;>
        simp [UnpackedFloat.compare, rank, lt_toLex_iff, Ordering.swap_eq_lt, then_eq_lt_iff,
          then_eq_gt_iff]

theorem rank_eq_none_iff (u : UnpackedFloat) : rank u = none ↔ u = .notANumber := by
  cases u with
  | notANumber => simp [rank]
  | infinity s => cases s <;> simp [rank]
  | zero s => simp [rank]
  | finite s m e hm => cases s <;> simp [rank]

theorem rank_eq_none_of_isNaN {x : Float} (h : x.isNaN = true) : rank (parts x) = none := by
  have h : (parts x).isNaN = true := h
  rw [rank_eq_none_iff]
  cases hx : parts x <;> simp [hx, UnpackedFloat.isNaN] at h ⊢

theorem exists_rank {x : Float} (h : x.isNaN = false) : ∃ a, rank (parts x) = some a := by
  have h : (parts x).isNaN = false := h
  refine Option.ne_none_iff_exists'.1 fun hnone => ?_
  rw [(rank_eq_none_iff _).1 hnone] at h
  cases h

/-! ## §2 Less -/

/-- A double is less than another exactly if both are numbers and its rank is less. -/
theorem lt_iff_rank (x y : Float) : x < y ↔ ∃ a ∈ rank (parts x), ∃ b ∈ rank (parts y), a < b := by
  rw [← compare_eq_lt_iff]
  show decide (((parts x).compare (parts y) == some .lt) = true) = true ↔ _
  rw [decide_eq_true_iff, beq_iff_eq]

theorem lt_irrefl (x : Float) : ¬ x < x := by
  rw [lt_iff_rank]
  rintro ⟨a, ha, b, hb, hlt⟩
  rw [Option.mem_unique ha hb] at hlt
  exact hlt.ne rfl

theorem lt_trans {x y z : Float} (h : x < y) (k : y < z) : x < z := by
  rw [lt_iff_rank] at *
  obtain ⟨a, ha, b, hb, hab⟩ := h
  obtain ⟨b', hb', c, hc, hbc⟩ := k
  rw [Option.mem_unique hb' hb] at hbc
  exact ⟨a, ha, c, hc, hab.trans hbc⟩

/-- What exceeds a double is a number. -/
theorem isNaN_eq_false_of_lt {x y : Float} (h : x < y) : y.isNaN = false := by
  cases hy : y.isNaN with
  | false => rfl
  | true =>
    rw [lt_iff_rank, rank_eq_none_of_isNaN hy] at h
    obtain ⟨-, -, b, hb, -⟩ := h
    cases hb

theorem not_lt_of_isNaN {x : Float} (h : x.isNaN = true) (y : Float) : ¬ x < y := by
  rw [lt_iff_rank, rank_eq_none_of_isNaN h]
  rintro ⟨a, ha, -⟩
  cases ha

theorem not_lt_of_isNaN_or_lt {x y : Float} (h : x.isNaN = true ∨ x < y) : ¬ y < x := by
  rcases h with hnan | hlt
  · intro hyx
    rw [isNaN_eq_false_of_lt hyx] at hnan
    cases hnan
  · exact fun hyx => lt_irrefl x (lt_trans hlt hyx)

/-- What does not exceed a double stays below whatever does, unless it is no number. -/
theorem isNaN_or_lt {x y z : Float} (h : ¬ x < y) (hz : x < z) : y.isNaN = true ∨ y < z := by
  cases hy : y.isNaN with
  | true => exact .inl rfl
  | false =>
    rw [lt_iff_rank] at h hz ⊢
    obtain ⟨b, hb⟩ := exists_rank hy
    obtain ⟨a, ha, c, hc, hac⟩ := hz
    have hba : b ≤ a := not_lt.1 fun hab => h ⟨a, ha, b, hb, hab⟩
    exact .inr ⟨b, hb, c, hc, hba.trans_lt hac⟩

/-! ## §3 Equality -/

theorem lt_iff_compare (x y : Float) : x < y ↔ (parts x).compare (parts y) = some .lt := by
  rw [lt_iff_rank, compare_eq_lt_iff]

theorem beq_iff_compare (x y : Float) : (x == y) = true ↔ (parts x).compare (parts y) = some .eq := by
  show ((parts x).compare (parts y) == some .eq) = true ↔ _
  rw [beq_iff_eq]

/-- What is greater in one order is less in the other. -/
theorem compare_eq_gt {u v : UnpackedFloat} (h : u.compare v = some .gt) : v.compare u = some .lt := by
  unfold UnpackedFloat.compare at h
  split at h
  -- Infinities, and numbers of one sign; all other shapes settle the order by themselves.
  case h_3 s t => cases s <;> cases t <;> first | rfl | cases h
  case h_13 =>
    simp only [UnpackedFloat.compare, Option.some.injEq, Ordering.swap_eq_gt, Ordering.swap_eq_lt,
      then_eq_lt_iff, then_eq_gt_iff] at h ⊢
    omega
  case h_16 =>
    simp only [UnpackedFloat.compare, Option.some.injEq, then_eq_lt_iff, then_eq_gt_iff] at h ⊢
    omega
  all_goals simp_all [UnpackedFloat.compare]

theorem compare_eq_none {u v : UnpackedFloat} (h : u.compare v = none) :
    u = .notANumber ∨ v = .notANumber := by
  unfold UnpackedFloat.compare at h
  split at h <;> simp at h ⊢

/-- Of two numbers one is less or they are equal. -/
theorem lt_or_beq_or_lt {x y : Float} (hx : x.isNaN = false) (hy : y.isNaN = false) :
    x < y ∨ (x == y) = true ∨ y < x := by
  rw [lt_iff_compare, beq_iff_compare, lt_iff_compare]
  cases hcompare : (parts x).compare (parts y) with
  | none =>
    obtain ⟨a, ha⟩ := exists_rank hx
    obtain ⟨b, hb⟩ := exists_rank hy
    rcases compare_eq_none hcompare with hnan | hnan
    · rw [hnan] at ha
      cases ha
    · rw [hnan] at hb
      cases hb
  | some order =>
    cases order with
    | lt => exact .inl rfl
    | eq => exact .inr (.inl rfl)
    | gt => exact .inr (.inr (compare_eq_gt hcompare))

/-- A number that another one does not exceed is at least as great. -/
theorem le_of_not_lt {x y : Float} (hx : x.isNaN = false) (hy : y.isNaN = false) (h : ¬ y < x) :
    x ≤ y := by
  show decide (((parts x).compare (parts y)).any (·.isLE) = true) = true
  rw [decide_eq_true_iff]
  rcases lt_or_beq_or_lt hx hy with hlt | heq | hgt
  · rw [(lt_iff_compare x y).1 hlt]
    rfl
  · rw [(beq_iff_compare x y).1 heq]
    rfl
  · exact absurd hgt h

/-- Two numbers of which neither is less are equal. -/
theorem beq_of_not_lt {x y : Float} (hx : x.isNaN = false) (hy : y.isNaN = false) (h : ¬ x < y)
    (h' : ¬ y < x) : (x == y) = true :=
  ((lt_or_beq_or_lt hx hy).resolve_left h).resolve_right h'

/-- What is less, or no number, is not equal. -/
theorem not_beq_of_isNaN_or_lt {x y : Float} (h : x.isNaN = true ∨ x < y) : ¬ (x == y) = true := by
  rw [beq_iff_compare]
  intro heq
  rcases h with hnan | hlt
  · rw [(rank_eq_none_iff _).1 (rank_eq_none_of_isNaN hnan)] at heq
    cases heq
  · rw [lt_iff_compare, heq] at hlt
    cases hlt

end Crossover.Double
