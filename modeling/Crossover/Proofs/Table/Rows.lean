/-
Crossover.Proofs.Table.Rows — which rows decide on reading a column, and on the order of its times.

A column is read row by row. It is read exactly if each row is, and else the first row that is not says why
(`readRows_eq_ok_iff`, `readRows_eq_error_iff`). Likewise the disorder that is named among times is the one
between the first two neighbours out of order (`firstDisorder?_eq_some_iff`).

  §1 Columns    — the rows of a column.
  §2 Neighbours — the order of times.
  §3 Series     — when prices and times make a series.
-/
import Mathlib
import Crossover.Table.Basic

namespace Crossover

/-! ## §1 Columns -/

section Columns

variable {α β ε : Type} {read : Nat → α → Except ε β}

theorem readRows_cons (row : Nat) (v : α) (rest : List α) :
    readRows read row (v :: rest) =
      match read row v with
      | .error fault => .error fault
      | .ok first =>
        match readRows read (row + 1) rest with
        | .error fault => .error fault
        | .ok others => .ok (first :: others) := rfl

theorem readRows_cons_eq_ok {row : Nat} {v : α} {rest : List α} {results : List β} :
    readRows read row (v :: rest) = .ok results ↔
      ∃ r others, read row v = .ok r ∧ readRows read (row + 1) rest = .ok others ∧
        results = r :: others := by
  rw [readRows_cons]
  cases read row v with
  | error e => simp
  | ok r =>
    cases readRows read (row + 1) rest with
    | error e => simp
    | ok others => simp [eq_comm]

/-- A column whose rows are read by one rule is read if each row is. -/
theorem readRows_eq_ok_iff {R : α → β → Prop} (h : ∀ row v r, read row v = .ok r ↔ R v r)
    {values : List α} {results : List β} (row : Nat) :
    readRows read row values = .ok results ↔ List.Forall₂ R values results := by
  induction values generalizing row results with
  | nil => cases results <;> simp [readRows]
  | cons v rest ih =>
    rw [readRows_cons_eq_ok, List.forall₂_cons_left_iff]
    constructor
    · rintro ⟨r, others, hr, hothers, rfl⟩
      exact ⟨r, others, (h row v r).1 hr, (ih (row + 1)).1 hothers, rfl⟩
    · rintro ⟨r, others, hr, hothers, rfl⟩
      exact ⟨r, others, (h row v r).2 hr, (ih (row + 1)).2 hothers, rfl⟩

/-- A row of a column is read as a result. -/
def ReadAt (read : Nat → α → Except ε β) (values : List α) (row : Nat) (r : β) : Prop :=
  ∃ v, values[row]? = some v ∧ read row v = .ok r

/-- A row of a column is not read. -/
def FaultAt (read : Nat → α → Except ε β) (values : List α) (row : Nat) (e : ε) : Prop :=
  ∃ v, values[row]? = some v ∧ read row v = .error e

theorem readAt_cons_succ {row i : Nat} {v : α} {rest : List α} {r : β} :
    ReadAt (fun j => read (row + j)) (v :: rest) (i + 1) r ↔
      ReadAt (fun j => read (row + 1 + j)) rest i r := by
  have hshift : row + (i + 1) = row + 1 + i := by omega
  simp only [ReadAt, List.getElem?_cons_succ, hshift]

theorem faultAt_cons_succ {row i : Nat} {v : α} {rest : List α} {e : ε} :
    FaultAt (fun j => read (row + j)) (v :: rest) (i + 1) e ↔
      FaultAt (fun j => read (row + 1 + j)) rest i e := by
  have hshift : row + (i + 1) = row + 1 + i := by omega
  simp only [FaultAt, List.getElem?_cons_succ, hshift]

/-- A column that is read from some row on has the results of its rows. -/
theorem getElem?_of_readRows_from {values : List α} {results : List β} {row : Nat}
    (h : readRows read row values = .ok results) (i : Nat) (r : β) :
    results[i]? = some r ↔ ReadAt (fun j => read (row + j)) values i r := by
  induction values generalizing row results i with
  | nil =>
    cases h
    simp [ReadAt]
  | cons v rest ih =>
    obtain ⟨first, others, hfirst, hothers, rfl⟩ := readRows_cons_eq_ok.1 h
    cases i with
    | zero => simp [ReadAt, hfirst]
    | succ i => rw [List.getElem?_cons_succ, ih hothers, readAt_cons_succ]

theorem readRows_cons_eq_error {row : Nat} {v : α} {rest : List α} {e : ε} :
    readRows read row (v :: rest) = .error e ↔
      read row v = .error e ∨ (∃ r, read row v = .ok r) ∧ readRows read (row + 1) rest = .error e := by
  rw [readRows_cons]
  cases read row v with
  | error e' => simp
  | ok r => cases readRows read (row + 1) rest <;> simp

/-- A column is not read from some row on exactly if a row is not, and then the first such row says why. -/
theorem readRows_from_eq_error_iff {values : List α} {e : ε} (row : Nat) :
    readRows read row values = .error e ↔
      ∃ i, FaultAt (fun j => read (row + j)) values i e ∧
        ∀ j < i, ∃ r, ReadAt (fun j => read (row + j)) values j r := by
  induction values generalizing row with
  | nil => simp [readRows, FaultAt]
  | cons v rest ih =>
    rw [readRows_cons_eq_error, ih (row + 1)]
    constructor
    · rintro (hfirst | ⟨⟨r, hr⟩, i, hfault, hbefore⟩)
      · exact ⟨0, ⟨v, rfl, hfirst⟩, by simp⟩
      · refine ⟨i + 1, faultAt_cons_succ.2 hfault, fun j hj => ?_⟩
        cases j with
        | zero => exact ⟨r, v, rfl, hr⟩
        | succ j => exact (hbefore j (by omega)).imp fun _ => readAt_cons_succ.2
    · rintro ⟨i, hfault, hbefore⟩
      cases i with
      | zero =>
        obtain ⟨w, hw, hread⟩ := hfault
        cases hw
        exact .inl hread
      | succ i =>
        obtain ⟨r, w, hw, hread⟩ := hbefore 0 (Nat.succ_pos i)
        cases hw
        refine .inr ⟨⟨r, hread⟩, i, faultAt_cons_succ.1 hfault, fun j hj => ?_⟩
        exact (hbefore (j + 1) (by omega)).imp fun _ => readAt_cons_succ.1

theorem length_of_readRows {values : List α} {results : List β} {row : Nat}
    (h : readRows read row values = .ok results) : results.length = values.length := by
  induction values generalizing row results with
  | nil =>
    cases h
    rfl
  | cons v rest ih =>
    obtain ⟨first, others, -, hothers, rfl⟩ := readRows_cons_eq_ok.1 h
    simp [ih hothers]

/-- A column that is read has the results of its rows. -/
theorem getElem?_of_readRows {values : List α} {results : List β} (h : readRows read 0 values = .ok results)
    (i : Nat) (r : β) : results[i]? = some r ↔ ReadAt read values i r := by
  simpa using getElem?_of_readRows_from h i r

/-- A column is not read exactly if a row is not, and then the first such row says why. -/
theorem readRows_eq_error_iff {values : List α} {e : ε} :
    readRows read 0 values = .error e ↔
      ∃ i, FaultAt read values i e ∧ ∀ j < i, ∃ r, ReadAt read values j r := by
  have hfrom : readRows read 0 values = .error e ↔ _ := readRows_from_eq_error_iff 0
  simpa using hfrom

/-- A column is read exactly if each of its rows is. -/
theorem exists_readRows_iff {values : List α} :
    (∃ results, readRows read 0 values = .ok results) ↔
      ∀ i < values.length, ∃ r, ReadAt read values i r := by
  constructor
  · rintro ⟨results, hresults⟩ i hi
    have hlength : i < results.length := (length_of_readRows hresults).symm ▸ hi
    exact ⟨_, (getElem?_of_readRows hresults i _).1 (List.getElem?_eq_getElem hlength)⟩
  · intro hall
    cases hresults : readRows read 0 values with
    | ok results => exact ⟨results, rfl⟩
    | error e =>
      obtain ⟨i, ⟨v, hv, herror⟩, -⟩ := readRows_eq_error_iff.1 hresults
      obtain ⟨r, w, hw, hread⟩ := hall i (List.getElem?_eq_some_iff.1 hv).1
      rw [hv] at hw
      cases hw
      rw [herror] at hread
      cases hread

end Columns

/-- The row of a string has a time if the string reads as one. -/
theorem timeOfText_eq_ok_iff (row : Nat) (value : Option String) (t : Instant) :
    timeOfText row value = .ok t ↔ ∃ text, value = some text ∧ Instant.read? text = some t := by
  cases value with
  | none => simp [timeOfText]
  | some text => cases hread : Instant.read? text <;> simp [timeOfText, hread]

/-- The row of a count has a time if the count stands for one. -/
theorem timeOfCount_eq_ok_iff {instant? : Int → Option Instant} {row : Nat} {value : Option Int}
    {t : Instant} :
    timeOfCount instant? row value = .ok t ↔ ∃ count, value = some count ∧ instant? count = some t := by
  cases value with
  | none => simp [timeOfCount]
  | some count =>
    cases h : instant? count <;> simp [timeOfCount, h]

/-! ## §2 Neighbours -/

/-- Two neighbours of a list that are out of order. -/
structure DisorderedAt (times : List Instant) (i : Nat) (d : Disorder) : Prop where
  row : d.row = i + 1
  earlier : times[i]? = some d.earlier
  later : times[i + 1]? = some d.later
  disordered : ¬ d.earlier.Before d.later

/-- All neighbours before a place are in order. -/
def OrderedUpTo (times : List Instant) (i : Nat) : Prop :=
  ∀ j < i, ∀ a b, times[j]? = some a → times[j + 1]? = some b → a.Before b

theorem orderedUpTo_cons_succ {a b : Instant} {rest : List Instant} {i : Nat} :
    OrderedUpTo (a :: b :: rest) (i + 1) ↔ a.Before b ∧ OrderedUpTo (b :: rest) i := by
  constructor
  · intro h
    exact ⟨h 0 (Nat.succ_pos i) a b rfl rfl, fun j hj => h (j + 1) (by omega)⟩
  · rintro ⟨hab, hrest⟩ j hj c d hc hd
    cases j with
    | zero =>
      cases hc
      cases hd
      exact hab
    | succ j => exact hrest j (by omega) c d hc hd

theorem disorderedAt_cons_succ {a : Instant} {rest : List Instant} {i : Nat} {d : Disorder} :
    DisorderedAt (a :: rest) (i + 1) d ↔ ∃ d', DisorderedAt rest i d' ∧ d = { d' with row := d'.row + 1 } := by
  constructor
  · rintro ⟨hrow, hearlier, hlater, hdisordered⟩
    refine ⟨⟨i + 1, d.earlier, d.later⟩, ⟨rfl, hearlier, hlater, hdisordered⟩, ?_⟩
    cases d
    simp_all
  · rintro ⟨d', ⟨hrow, hearlier, hlater, hdisordered⟩, rfl⟩
    exact ⟨by rw [hrow], hearlier, hlater, hdisordered⟩

/-- The disorder that is named is the first. -/
theorem firstDisorder?_eq_some_iff {times : List Instant} {d : Disorder} :
    firstDisorder? times = some d ↔ ∃ i, DisorderedAt times i d ∧ OrderedUpTo times i := by
  induction times generalizing d with
  | nil =>
    simp only [firstDisorder?, reduceCtorEq, false_iff, not_exists, not_and]
    intro i h
    cases h.earlier
  | cons a rest ih =>
    cases rest with
    | nil =>
      simp only [firstDisorder?, reduceCtorEq, false_iff, not_exists, not_and]
      intro i h
      cases h.later
    | cons b rest =>
      rw [firstDisorder?]
      split
      · rename_i hab
        rw [Option.map_eq_some_iff]
        constructor
        · rintro ⟨d', hd', rfl⟩
          obtain ⟨i, hat, hordered⟩ := ih.1 hd'
          exact ⟨i + 1, disorderedAt_cons_succ.2 ⟨d', hat, rfl⟩, orderedUpTo_cons_succ.2 ⟨hab, hordered⟩⟩
        · rintro ⟨i, hat, hordered⟩
          cases i with
          | zero =>
            obtain ⟨-, hearlier, hlater, hdisordered⟩ := hat
            cases hearlier
            cases hlater
            exact absurd hab hdisordered
          | succ i =>
            obtain ⟨d', hat', rfl⟩ := disorderedAt_cons_succ.1 hat
            exact ⟨d', ih.2 ⟨i, hat', (orderedUpTo_cons_succ.1 hordered).2⟩, rfl⟩
      · rename_i hab
        constructor
        · intro h
          cases h
          exact ⟨0, ⟨rfl, rfl, rfl, hab⟩, fun j hj => absurd hj (Nat.not_lt_zero j)⟩
        · rintro ⟨i, hat, hordered⟩
          cases i with
          | zero =>
            obtain ⟨hrow, hearlier, hlater, -⟩ := hat
            cases d
            simp_all
          | succ i => exact absurd (orderedUpTo_cons_succ.1 hordered).1 hab

theorem firstDisorder?_of_pairwise : {times : List Instant} → times.Pairwise Instant.Before →
    firstDisorder? times = none
  | [], _ => rfl
  | [_], _ => rfl
  | a :: b :: rest, h => by
    have hab : a.Before b := List.rel_of_pairwise_cons h List.mem_cons_self
    rw [firstDisorder?, if_pos hab, firstDisorder?_of_pairwise h.of_cons]
    rfl

/-- No disorder is named exactly if all times are in order. -/
theorem firstDisorder?_eq_none_iff {times : List Instant} :
    firstDisorder? times = none ↔ times.Pairwise Instant.Before :=
  ⟨pairwise_of_firstDisorder, firstDisorder?_of_pairwise⟩

/-! ## §3 Series -/

/-- A series is its prices and its times. -/
theorem Series.eq_of {r s : Series} (hcloses : r.closes = s.closes) (htimes : r.times = s.times) : r = s := by
  cases r
  cases s
  simp_all

/-- As many prices as times in ascending order are a series. -/
theorem Series.ofTimed_eq_ok {closes : List Float} {times : List Instant} (hne : closes ≠ [])
    (hlength : times.length = closes.length) (h : times.Pairwise Instant.Before) :
    ∃ s : Series, Series.ofTimed closes times = .ok s ∧ s.closes = closes ∧ s.times = some times := by
  have hnone := firstDisorder?_of_pairwise h
  rw [ofTimed, dif_neg hne, dif_pos hlength]
  split
  · exact ⟨_, rfl, rfl, rfl⟩
  · rename_i d hsome
    rw [hnone] at hsome
    cases hsome

/-- Prices and times make a series exactly if there is a price, there is a time for each price, and the
times are in order. -/
theorem Series.ofTimed_eq_ok_iff {closes : List Float} {times : List Instant} {s : Series} :
    Series.ofTimed closes times = .ok s ↔
      (closes ≠ [] ∧ times.length = closes.length ∧ times.Pairwise Instant.Before) ∧
        s.closes = closes ∧ s.times = some times := by
  constructor
  · intro h
    unfold ofTimed at h
    split at h
    · cases h
    · rename_i hne
      split at h
      · rename_i hlength
        split at h
        · rename_i hnone
          cases h
          exact ⟨⟨hne, hlength, pairwise_of_firstDisorder hnone⟩, rfl, rfl⟩
        · cases h
      · cases h
  · rintro ⟨⟨hne, hlength, hpairwise⟩, hcloses, htimes⟩
    obtain ⟨r, hr, hrcloses, hrtimes⟩ := Series.ofTimed_eq_ok hne hlength hpairwise
    rw [hr, Series.eq_of (hrcloses.trans hcloses.symm) (hrtimes.trans htimes.symm)]

theorem Series.exists_ofTimed_iff {closes : List Float} {times : List Instant} :
    (∃ s, Series.ofTimed closes times = .ok s) ↔
      closes ≠ [] ∧ times.length = closes.length ∧ times.Pairwise Instant.Before := by
  constructor
  · rintro ⟨s, hs⟩
    exact (ofTimed_eq_ok_iff.1 hs).1
  · rintro ⟨hne, hlength, hpairwise⟩
    obtain ⟨s, hs, -⟩ := ofTimed_eq_ok hne hlength hpairwise
    exact ⟨s, hs⟩

theorem Series.ofTimed_eq_error_iff {closes : List Float} {times : List Instant}
    (hlength : times.length = closes.length) {fault : SeriesFault} :
    Series.ofTimed closes times = .error fault ↔
      (closes = [] ∧ fault = .empty) ∨
        (closes ≠ [] ∧ ∃ d, firstDisorder? times = some d ∧ fault = .unordered d) := by
  unfold ofTimed
  split
  · rename_i hnil
    simp [hnil, eq_comm]
  · rename_i hne
    split
    · rename_i hnone
      simp [hne, hnone]
    · rename_i d hsome
      simp [hne, hsome, eq_comm]

theorem Table.timedSeries_eq_ok_iff {closes : List Float} {cells : Cells} {s : Series} :
    Table.timedSeries closes cells = .ok s ↔
      ∃ times, cells.times = .ok times ∧ Series.ofTimed closes times = .ok s := by
  unfold timedSeries
  cases cells.times with
  | error fault => simp
  | ok times => cases hseries : Series.ofTimed closes times <;> simp [hseries]

theorem Table.timedSeries_of_times {closes : List Float} {cells : Cells} {times : List Instant}
    (h : cells.times = .ok times) {s : Series} :
    Table.timedSeries closes cells = .ok s ↔ Series.ofTimed closes times = .ok s := by
  simp [timedSeries_eq_ok_iff, h]

end Crossover
