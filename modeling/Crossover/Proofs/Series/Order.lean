/-
Crossover.Proofs.Series.Order — a series that is built has its bars in strict order.

Building a series compares each time with the next one only. That is enough for all of them, since the order
of times is transitive, and the first two neighbours out of order are what a refusal names
(`Series.ofTimed_eq_unordered_iff`). So the label of a bar is before the labels of all later bars
(`Series.InOrder`), and no two bars share a label.

  §1 Times  — the order of all times, and the first one that breaks it.
  §2 Labels — the labels of the bars.
-/
import Crossover.Proofs.Label.Order
import Crossover.Proofs.Table.Rows

namespace Crossover

/-! ## §1 Times -/

/-- Each time is before all later ones. -/
def Ascending (times : List Instant) : Prop :=
  ∀ (i j : Nat) (a b : Instant), i < j → times[i]? = some a → times[j]? = some b → a.Before b

theorem ascending_iff_pairwise {times : List Instant} : Ascending times ↔ times.Pairwise Instant.Before := by
  rw [List.pairwise_iff_getElem]
  constructor
  · intro h i j hi hj hij
    exact h i j _ _ hij (List.getElem?_eq_getElem hi) (List.getElem?_eq_getElem hj)
  · intro h i j a b hij ha hb
    obtain ⟨hi, rfl⟩ := List.getElem?_eq_some_iff.1 ha
    obtain ⟨hj, rfl⟩ := List.getElem?_eq_some_iff.1 hb
    exact h i j hi hj hij

/-- Times that are out of order have a first place at which they are. -/
theorem exists_disorderedAt {times : List Instant} (h : ¬ Ascending times) :
    ∃ p d, DisorderedAt times p d ∧ OrderedUpTo times p := by
  rw [ascending_iff_pairwise, ← firstDisorder?_eq_none_iff] at h
  obtain ⟨d, hd⟩ := Option.ne_none_iff_exists'.1 h
  obtain ⟨p, hp⟩ := firstDisorder?_eq_some_iff.1 hd
  exact ⟨p, d, hp⟩

/-- Of two neighbours out of order, the later one has the same time or an earlier one. -/
theorem DisorderedAt.eq_or_before {times : List Instant} {p : Nat} {d : Disorder} (h : DisorderedAt times p d) :
    d.later = d.earlier ∨ d.later.Before d.earlier := by
  rcases Instant.before_or_eq_or_before d.later d.earlier with hlt | heq | hgt
  · exact .inr hlt
  · exact .inl heq
  · exact absurd hgt h.disordered

namespace Series

variable {closes : List Float} {times : List Instant}

/-- A disorder is named where nothing else is wrong, and it is the first. -/
theorem ofTimed_eq_unordered_iff {d : Disorder} :
    ofTimed closes times = .error (.unordered d) ↔
      closes ≠ [] ∧ times.length = closes.length ∧
        ∃ p, DisorderedAt times p d ∧ OrderedUpTo times p := by
  rw [← firstDisorder?_eq_some_iff]
  by_cases hlength : times.length = closes.length
  · rw [ofTimed_eq_error_iff hlength]
    simp [hlength]
  · rcases eq_or_ne closes [] with hempty | hne
    · simp [ofTimed, hempty]
    · simp [ofTimed, hne, hlength]

/-! ## §2 Labels -/

/-- Each bar of a series has a label, which is before the labels of all later bars and is shared with no
other bar. -/
structure InOrder (s : Series) : Prop where
  labelled : ∀ i < s.size, ∃ k, s.label? i = some k
  ascending : ∀ i j a b, i < j → j < s.size → s.label? i = some a → s.label? j = some b → a.Before b
  unshared : ∀ i j k, i < s.size → j < s.size → s.label? i = some k → s.label? j = some k → i = j

theorem inOrder (s : Series) : s.InOrder := by
  refine ⟨fun i hi => ?_, fun i j a b hij hj ha hb => ?_, fun i j k hi hj hik hjk => ?_⟩
  · rw [← s.getElem?_labels hi]
    exact ⟨_, List.getElem?_eq_getElem (s.length_labels.symm ▸ hi)⟩
  · exact (s.before_iff_lt ha hb (hij.trans hj) hj).2 hij
  · have hirrefl := Label.Before.irrefl k
    have hnotLt : ¬ i < j := fun hlt => hirrefl ((s.before_iff_lt hik hjk hi hj).2 hlt)
    have hnotGt : ¬ j < i := fun hgt => hirrefl ((s.before_iff_lt hjk hik hj hi).2 hgt)
    omega

/-- A series with times has labels for its bars and for nothing else, and they are its times. -/
theorem label?_eq_some_iff {s : Series} (h : s.times = some times) (i : Nat) (k : Label) :
    s.label? i = some k ↔ ∃ t, times[i]? = some t ∧ k = .time t := by
  simp [label?, h, eq_comm]

theorem exists_label_iff {s : Series} (h : s.times = some times) (i : Nat) :
    (∃ k, s.label? i = some k) ↔ i < s.size := by
  have hsize : times.length = s.size := s.times_length times h
  rw [← hsize, ← isSome_getElem? times i, Option.isSome_iff_exists]
  simp [label?_eq_some_iff h]

end Series

/-- **A series has its bars in strict order.** Prices and times make a series exactly if there is a price, there
are as many times as prices, and each time is before all later ones, not only before the next. If the order is
all that is wrong, the fault names the first two neighbours of which the second is not later: its row and both
times. A series of prices and times has a label for each of its bars and for no other position, the time of the
bar; a series of prices alone has the positions as labels. Either way each bar has its label before those of all
later bars, so that no two bars share one. -/
theorem bars_in_strict_order :
    (∀ closes times, (∃ s, Series.ofTimed closes times = .ok s) ↔
      closes ≠ [] ∧ times.length = closes.length ∧ Ascending times) ∧
    (∀ closes times, closes ≠ [] → times.length = closes.length → ¬ Ascending times →
      ∃ p a b, times[p]? = some a ∧ times[p + 1]? = some b ∧ (b = a ∨ b.Before a) ∧ OrderedUpTo times p ∧
        Series.ofTimed closes times = .error (.unordered ⟨p + 1, a, b⟩)) ∧
    (∀ closes times s, Series.ofTimed closes times = .ok s →
      s.closes = closes ∧ (∀ i k, s.label? i = some k ↔ ∃ t, times[i]? = some t ∧ k = .time t) ∧
        (∀ i, (∃ k, s.label? i = some k) ↔ i < s.size) ∧ s.InOrder) ∧
    (∀ closes s, Series.ofCloses closes = .ok s →
      s.closes = closes ∧ (∀ i, s.label? i = some (.position i)) ∧ s.InOrder) := by
  refine ⟨fun closes times => ?_, fun closes times hne hlength hbroken => ?_,
    fun closes times s hs => ?_, fun closes s hs => ?_⟩
  · rw [Series.exists_ofTimed_iff, ascending_iff_pairwise]
  · obtain ⟨p, d, hdisorder, hbefore⟩ := exists_disorderedAt hbroken
    have hfault := Series.ofTimed_eq_unordered_iff.2 ⟨hne, hlength, p, hdisorder, hbefore⟩
    refine ⟨p, d.earlier, d.later, hdisorder.earlier, hdisorder.later, hdisorder.eq_or_before, hbefore, ?_⟩
    rw [hfault, ← hdisorder.row]
  · obtain ⟨-, hcloses, htimes⟩ := Series.ofTimed_eq_ok_iff.1 hs
    exact ⟨hcloses, Series.label?_eq_some_iff htimes, Series.exists_label_iff htimes, s.inOrder⟩
  · unfold Series.ofCloses at hs
    split at hs
    · cases hs
    · cases hs
      exact ⟨rfl, fun _ => rfl, Series.inOrder _⟩

/-- Half a second before the leap second of 1998, half a second into it, and the midnight after it. -/
def leapTimes : List Instant :=
  [(Instant.of? 915148799 500000000).get rfl, (Instant.of? 915148799 1500000000).get rfl,
    (Instant.of? 915148800 0).get rfl]

/-- Times that go through a leap second are in order. If they come twice, the fault is at the third row, where the
clock goes back, although what follows is in order again. -/
theorem bars_in_strict_order_of_leapSecond :
    (∃ s, Series.ofTimed [1.0, 2.0, 3.0] leapTimes = .ok s ∧ s.InOrder ∧
      ∀ i, (∃ k, s.label? i = some k) ↔ i < 3) ∧
    ∃ a b, Series.ofTimed [1.0, 2.0, 3.0, 4.0, 5.0, 6.0] (leapTimes ++ leapTimes) =
      .error (.unordered ⟨3, a, b⟩) ∧ b.Before a := by
  obtain ⟨hok, hbroken, hlabels, -⟩ := bars_in_strict_order
  have hascending : Ascending leapTimes := by
    rw [ascending_iff_pairwise]
    decide
  constructor
  · obtain ⟨s, hs⟩ := (hok [1.0, 2.0, 3.0] leapTimes).2 ⟨List.cons_ne_nil _ _, rfl, hascending⟩
    obtain ⟨hcloses, -, hkeys, hinOrder⟩ := hlabels _ _ s hs
    have hsize : s.size = 3 := congrArg List.length hcloses
    exact ⟨s, hs, hinOrder, fun i => hsize ▸ hkeys i⟩
  · have hback : ¬ Ascending (leapTimes ++ leapTimes) := by
      rw [ascending_iff_pairwise]
      decide
    obtain ⟨p, a, b, ha, hb, hab, hbefore, hfault⟩ :=
      hbroken [1.0, 2.0, 3.0, 4.0, 5.0, 6.0] (leapTimes ++ leapTimes) (List.cons_ne_nil _ _) rfl hback
    rcases Nat.lt_trichotomy p 2 with hlt | rfl | hgt
    · have hearly : p = 0 ∨ p = 1 := by omega
      rcases hearly with rfl | rfl
      · cases ha
        cases hb
        exact absurd hab (by decide)
      · cases ha
        cases hb
        exact absurd hab (by decide)
    · cases ha
      cases hb
      exact ⟨_, _, hfault, by decide⟩
    · exact absurd (hbefore 2 hgt _ _ rfl rfl) (by decide)

end Crossover
