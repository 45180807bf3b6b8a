/-
Crossover.Proofs.Label.Order — labels are ordered strictly, and the bars of a series in that order.

The order of labels is one of a kind: of two labels one is before the other, unless they are the same
(`Label.before_or_eq_or_before`). In a series each bar has its label before that of all later bars
(`Series.labels_pairwise`), so that of two bars the earlier one is the one with the earlier label
(`Series.before_iff_lt`).

  §1 Order  — times and labels.
  §2 Series — the labels of the bars.
-/
import Mathlib.Data.List.Basic
import Crossover.Series

namespace Crossover

/-! ## §1 Order -/

theorem Instant.before_or_eq_or_before (a b : Instant) : a.Before b ∨ a = b ∨ b.Before a := by
  unfold Before
  rcases Int.lt_trichotomy a.second b.second with hlt | heq | hgt
  · exact .inl (.inl hlt)
  · rcases Nat.lt_trichotomy a.nano b.nano with hlt | hnano | hgt
    · exact .inl (.inr ⟨heq, hlt⟩)
    · refine .inr (.inl ?_)
      cases a
      cases b
      simp_all
    · exact .inr (.inr (.inr ⟨heq.symm, hgt⟩))
  · exact .inr (.inr (.inl hgt))

namespace Label

theorem Before.trans {a b c : Label} (h : a.Before b) (k : b.Before c) : a.Before c := by
  cases b with
  | position n =>
    cases a with
    | time s => exact h.elim
    | position m =>
      cases c with
      | position l => exact Nat.lt_trans h k
      | time t => trivial
  | time t =>
    cases c with
    | position n => exact k.elim
    | time u =>
      cases a with
      | position m => trivial
      | time s => exact Instant.Before.trans h k

theorem Before.irrefl (a : Label) : ¬ a.Before a := by
  cases a with
  | position n => exact Nat.lt_irrefl n
  | time t => exact Instant.Before.irrefl t

theorem Before.asymm {a b : Label} (h : a.Before b) : ¬ b.Before a :=
  fun k => Before.irrefl a (h.trans k)

/-- Of two labels one is before the other, unless they are the same. -/
theorem before_or_eq_or_before (a b : Label) : a.Before b ∨ a = b ∨ b.Before a := by
  cases a with
  | position m =>
    cases b with
    | position n => simpa only [Before, position.injEq] using Nat.lt_trichotomy m n
    | time t => exact .inl trivial
  | time s =>
    cases b with
    | position n => exact .inr (.inr trivial)
    | time t => simpa only [Before, time.injEq] using Instant.before_or_eq_or_before s t

end Label

/-! ## §2 Series -/

namespace Series

/-- The labels of the bars of a series. -/
def labels (s : Series) : List Label :=
  match s.times with
  | none => (List.range s.size).map .position
  | some times => times.map .time

variable (s : Series)

theorem length_labels : s.labels.length = s.size := by
  unfold labels
  cases htimes : s.times with
  | none => simp
  | some times => simpa [size] using s.times_length times htimes

/-- The labels of its bars are in order. -/
theorem labels_pairwise : s.labels.Pairwise Label.Before := by
  unfold labels
  cases htimes : s.times with
  | none => exact List.pairwise_map.2 List.pairwise_lt_range
  | some times => exact List.pairwise_map.2 (s.times_pairwise times htimes)

theorem getElem?_labels {position : Nat} (h : position < s.size) :
    s.labels[position]? = s.label? position := by
  unfold labels label?
  cases s.times with
  | none => simp [h]
  | some times => simp

/-- Of two bars of a series, the label of one is before that of the other exactly if the bar is. -/
theorem before_iff_lt {i j : Nat} {a b : Label} (ha : s.label? i = some a) (hb : s.label? j = some b)
    (hi : i < s.size) (hj : j < s.size) : a.Before b ↔ i < j := by
  have hlabels := List.pairwise_iff_getElem.1 s.labels_pairwise
  rw [← s.getElem?_labels hi, List.getElem?_eq_some_iff] at ha
  rw [← s.getElem?_labels hj, List.getElem?_eq_some_iff] at hb
  obtain ⟨hi, rfl⟩ := ha
  obtain ⟨hj, rfl⟩ := hb
  refine ⟨fun h => ?_, hlabels i j hi hj⟩
  rcases Nat.lt_trichotomy i j with hlt | rfl | hgt
  · exact hlt
  · exact absurd h (Label.Before.irrefl _)
  · exact absurd (hlabels j i hj hi hgt) h.asymm

end Series

end Crossover
