/-
Crossover.Proofs.Calendar.LeapSeconds — which leap seconds a text can show.

There may be a leap second behind any second, but clocks show second sixty only at the end of a minute. A leap
second anywhere else is shown as the next second is, so that two instants have the same text (`Instant.chars_asShown`).
The one of them that a text is read as is `Instant.asShown`. It is the instant itself exactly if a leap second, should
the instant be in one, ends a minute (`Instant.Regular`, `Instant.asShown_eq_self_iff`).

Whatever an instant is read from, it is regular. A step of a layout enters at most nine digits of a fraction
(`Item.nano_lt_of_read?`), hence so does a run of steps (`Layout.nano_lt_of_run?`), and second sixty is read as a leap
second at the end of its minute.

  §1 Shown — the instant that clocks show.
  §2 Read  — instants that were read.
-/
import Crossover.Proofs.Calendar.Agreement

namespace Crossover

open Text Digits

namespace Instant

/-! ## §1 Shown -/

/-- If the instant is in a leap second, then in one that ends a minute, where clocks show second sixty. -/
def Regular (t : Instant) : Prop :=
  t.nano < billion ∨ t.second % 60 = 59

instance (t : Instant) : Decidable t.Regular :=
  inferInstanceAs (Decidable (_ ∨ _))

/-- The last second of the calendar ends a minute, so that there is a second after one that does not. -/
theorem next_inCalendar {t : Instant} (h : ¬ t.Regular) :
    earliest ≤ t.second + 1 ∧ t.second + 1 ≤ latest := by
  have hcalendar := t.inCalendar
  unfold Regular at h
  unfold earliest latest at *
  omega

/-- The instant that clocks show: in a leap second that does not end a minute, the same part of the next second. -/
def asShown (t : Instant) : Instant :=
  if h : t.Regular then t
  else ⟨t.second + 1, t.nano - billion, next_inCalendar h, (Nat.sub_le _ _).trans_lt t.inSecond⟩

theorem asShown_of_regular {t : Instant} (h : t.Regular) : t.asShown = t :=
  dif_pos h

theorem asShown_of_not_regular {t : Instant} (h : ¬ t.Regular) :
    t.asShown.second = t.second + 1 ∧ t.asShown.nano + billion = t.nano := by
  have hlate : billion ≤ t.nano := Nat.not_lt.1 (mt Or.inl h)
  rw [asShown, dif_neg h]
  exact ⟨rfl, Nat.sub_add_cancel hlate⟩

/-- What clocks show is regular. -/
theorem regular_asShown (t : Instant) : t.asShown.Regular := by
  by_cases h : t.Regular
  · rw [asShown_of_regular h]
    exact h
  · have hnano := (asShown_of_not_regular h).2
    have hsecond := t.inSecond
    left
    omega

theorem asShown_eq_self_iff {t : Instant} : t.asShown = t ↔ t.Regular := by
  refine ⟨fun h => ?_, asShown_of_regular⟩
  rw [← h]
  exact t.regular_asShown

/-- An instant has the text of the instant that clocks show. -/
theorem chars_asShown (separator : Char) (t : Instant) : t.asShown.chars separator = t.chars separator := by
  by_cases h : t.Regular
  · rw [asShown_of_regular h]
  · obtain ⟨hsecond, hnano⟩ := asShown_of_not_regular h
    have hbound := t.inSecond
    unfold Regular at h
    have hcivil : t.asShown.civil = t.civil := by
      have hday : (t.second + 1) / 86400 = t.second / 86400 := by omega
      rw [civil, civil, hsecond, hday]
    have hhour : t.asShown.ofDaySecond / 3600 = t.ofDaySecond / 3600 := by
      unfold ofDaySecond
      omega
    have hminute : t.asShown.ofDaySecond / 60 % 60 = t.ofDaySecond / 60 % 60 := by
      unfold ofDaySecond
      omega
    have hshown : t.asShown.shownSecond = t.shownSecond := by
      unfold shownSecond ofDaySecond
      rw [if_pos (by omega), if_neg (mt Or.inl h)]
      omega
    have hrest : t.asShown.shownNano = t.shownNano := by
      rw [shownNano, shownNano, ← hnano, Nat.add_mod_right]
    simp only [chars, clockChars, hcivil, hhour, hminute, hshown, hrest]

/-- Half into a leap second behind 20:19:24 on the last of June 2015, where no minute ends. -/
def strayLeap : Instant :=
  (Instant.of? 1435695564 1500000000).get rfl

/-- 20:19:25 on the last of June 2015. -/
def afterStrayLeap : Instant :=
  (Instant.of? 1435695565 0).get rfl

/-- The leap second comes before the next second begins, and is shown half a second later than that. -/
example : strayLeap.Before afterStrayLeap ∧ afterStrayLeap.Before strayLeap.asShown ∧
    strayLeap.text = "2015-06-30 20:19:25.500" := by decide +kernel

end Instant

/-! ## §2 Read -/

/-- A fraction counts less than a second. -/
theorem Item.nanos_lt {digits : List Char} (h : ∀ c ∈ digits, c.isDigit = true) :
    nanos digits < Instant.billion := by
  have hdigits : ∀ c ∈ (digits.take 9).rightpad 9 '0', c.isDigit = true := by
    intro c hc
    rw [List.rightpad, List.mem_append, List.mem_replicate] at hc
    rcases hc with hdigit | ⟨-, rfl⟩
    · exact h c (List.mem_of_mem_take hdigit)
    · rfl
  have hlength : ((digits.take 9).rightpad 9 '0').length = 9 := by
    rw [List.rightpad, List.length_append, List.length_replicate]
    have hmost : (digits.take 9).length ≤ 9 := List.length_take_le 9 digits
    omega
  have hvalue := value_lt hdigits
  rw [hlength] at hvalue
  exact hvalue

/-- A step of a layout enters less than a second as the nanoseconds, if it enters any. -/
theorem Item.nano_lt_of_read? {item : Item} {r next : Reading} {cs rest : List Char}
    (h : item.read? r cs = some (next, rest)) (hnano : r.nano < Instant.billion) :
    next.nano < Instant.billion := by
  cases item with
  | digits part least most =>
    obtain ⟨found, -, hfound⟩ := Option.map_eq_some_iff.1 h
    cases hfound
    cases part <;> exact hnano
  | signedYear =>
    simp only [read?] at h
    split at h <;>
      · obtain ⟨found, -, hfound⟩ := Option.map_eq_some_iff.1 h
        cases hfound
        exact hnano
  | gap =>
    cases h
    exact hnano
  | oneOf marks =>
    simp only [read?] at h
    split at h
    · split at h
      · cases h
        exact hnano
      · cases h
    · cases h
  | fraction =>
    simp only [read?] at h
    split at h
    · split at h
      · cases h
      · cases h
        exact nanos_lt fun c hc => List.mem_takeWhile_imp hc
    · cases h
      exact hnano
  | zone =>
    simp only [read?] at h
    -- Two letters, three signs with digits behind them, and nothing else, are the head of an offset.
    split at h
    case h_6 => cases h
    case h_1 | h_2 =>
      cases h
      exact hnano
    all_goals
      obtain ⟨found, -, hfound⟩ := Option.map_eq_some_iff.1 h
      cases hfound
      exact hnano

/-- The nanoseconds of a reading stay below a second, whatever the items are. -/
theorem Layout.nano_lt_of_run? {layout : Layout} {r last : Reading} {cs rest : List Char}
    (h : run? r cs layout = some (last, rest)) (hnano : r.nano < Instant.billion) :
    last.nano < Instant.billion := by
  induction layout generalizing r cs with
  | nil =>
    cases h
    exact hnano
  | cons item items ih =>
    obtain ⟨next, left, hread, hrun⟩ := run?_cons_eq_some_iff.1 h
    exact ih hrun (Item.nano_lt_of_read? hread hnano)

namespace Instant

theorem of?_eq_some_iff {second : Int} {nano : Nat} {t : Instant} :
    of? second nano = some t ↔ t.second = second ∧ t.nano = nano := by
  constructor
  · intro h
    unfold of? at h
    split at h
    · cases h
      exact ⟨rfl, rfl⟩
    · cases h
  · rintro ⟨rfl, rfl⟩
    exact t.of?_self

/-- Second sixty is a leap second at the end of its minute. -/
theorem regular_of_reading {r : Reading} {t : Instant} (h : r.instant? = some t) (hnano : r.nano < billion) :
    t.Regular := by
  unfold Reading.instant? at h
  split at h
  · cases h
  · split at h
    · split at h
      · obtain ⟨hsecond, -⟩ := of?_eq_some_iff.1 h
        right
        omega
      · obtain ⟨-, htime⟩ := of?_eq_some_iff.1 h
        left
        omega
    · cases h

theorem regular_of_layout {layout : Layout} {cs : List Char} {t : Instant} (h : layout.instant? cs = some t) :
    t.Regular := by
  obtain ⟨r, hrun, hr⟩ := Layout.instant?_eq_some_iff.1 h
  exact regular_of_reading hr (Layout.nano_lt_of_run? hrun (by decide))

/-- The time of a bar is regular if it was read from a text. -/
theorem regular_of_read? {text : String} {t : Instant} (h : read? text = some t) : t.Regular := by
  obtain ⟨layout, -, hlayout⟩ := List.exists_of_findSome?_eq_some h
  exact regular_of_layout hlayout

theorem regular_of_readData? {text : String} {t : Instant} (h : readData? text = some t) : t.Regular :=
  regular_of_layout h

end Instant

end Crossover
