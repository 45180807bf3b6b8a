/-
Crossover.Proofs.Table.Verdict — which tables make a series, and what is wrong with the others.

What stands in a row is said by relations that do not mention the order in which the rows are read: the price or
the time of a row (`Cells.PriceAt`, `Cells.TimeAt`), what is wrong with a row that has none (`Cells.CloseFault`,
`Cells.TimeFault`), and the first thing wrong with a table (`Table.Fault`). Reading a column is then reading its
rows, and the verdict follows from the lemmas about rows in `Crossover.Proofs.Table.Rows`.

  §1 Prices — the closing prices of a column.
  §2 Times  — the times of a column.
  §3 Order  — times of neighbours.
  §4 Tables — the table as a whole.
-/
import Crossover.Proofs.Table.Storage

namespace Crossover

/-! ## §1 Prices -/

namespace Cells

/-- A row of a column has a price. -/
def PriceAt (c : Cells) (row : Nat) (price : Float) : Prop :=
  ∃ prices, c.prices? = some prices ∧ prices[row]? = some (some price)

/-- A row of a column has a closing price: a price that is finite. -/
def CloseAt (c : Cells) (row : Nat) (price : Float) : Prop :=
  c.PriceAt row price ∧ price.isFinite = true

/-- What is wrong with a row that has no closing price. -/
inductive CloseFault (c : Cells) (row : Nat) : DataFault → Prop
  | missing {prices : List (Option Float)} (hprices : c.prices? = some prices)
      (hrow : prices[row]? = some none) : CloseFault c row (.closeMissing row)
  | notFinite {price : Float} (hprice : c.PriceAt row price) (h : price.isFinite = false) :
      CloseFault c row (.closeNotFinite price row)

theorem length_prices? {c : Cells} {prices : List (Option Float)} (h : c.prices? = some prices) :
    prices.length = c.rows := by
  cases c <;> cases h <;> simp [rows]

theorem closeOf_eq_ok_iff {row : Nat} {value : Option Float} {price : Float} :
    closeOf row value = .ok price ↔ value = some price ∧ price.isFinite = true := by
  cases value with
  | none => simp [closeOf]
  | some p =>
    rw [closeOf]
    split
    · rename_i hfinite
      simp only [Except.ok.injEq, Option.some.injEq]
      exact ⟨fun h => ⟨h, h ▸ hfinite⟩, And.left⟩
    · rename_i hinfinite
      simp only [reduceCtorEq, Option.some.injEq, false_iff, not_and]
      exact fun h => h ▸ hinfinite

section

variable {c : Cells} {prices : List (Option Float)}

theorem closeAt_iff (hprices : c.prices? = some prices) {row : Nat} {price : Float} :
    c.CloseAt row price ↔ ReadAt closeOf prices row price := by
  simp [CloseAt, PriceAt, ReadAt, hprices, closeOf_eq_ok_iff]

theorem closeFault_iff (hprices : c.prices? = some prices) {row : Nat} {fault : DataFault} :
    c.CloseFault row fault ↔ FaultAt closeOf prices row fault := by
  constructor
  · intro h
    cases h with
    | missing hsame hrow =>
      rw [hprices] at hsame
      cases hsame
      exact ⟨none, hrow, rfl⟩
    | notFinite hprice hinfinite =>
      obtain ⟨_, hsame, hrow⟩ := hprice
      rw [hprices] at hsame
      cases hsame
      exact ⟨_, hrow, by simp [closeOf, hinfinite]⟩
  · rintro ⟨value, hvalue, hfault⟩
    cases value with
    | none =>
      cases hfault
      exact .missing hprices hvalue
    | some price =>
      rw [closeOf] at hfault
      split at hfault
      · cases hfault
      · rename_i hinfinite
        cases hfault
        exact .notFinite ⟨prices, hprices, hvalue⟩ (by simpa using hinfinite)

theorem closes_eq_ok_iff (hprices : c.prices? = some prices) {closes : List Float} :
    c.closes = .ok closes ↔ readRows closeOf 0 prices = .ok closes := by
  simp only [Cells.closes, hprices]
  cases readRows closeOf 0 prices <;> simp

end

/-- All rows of a column have closing prices. -/
def AllCloses (c : Cells) : Prop :=
  c.prices?.isSome = true ∧ ∀ row < c.rows, ∃ price, c.CloseAt row price

theorem closeAt_of_priceAt {c : Cells} (h : c.AllCloses) {row : Nat} {price : Float}
    (hprice : c.PriceAt row price) : c.CloseAt row price := by
  obtain ⟨prices, hprices, hrow⟩ := hprice
  have hlt : row < c.rows := length_prices? hprices ▸ (List.getElem?_eq_some_iff.1 hrow).1
  obtain ⟨other, ⟨_, hsame, hother⟩, hfinite⟩ := h.2 row hlt
  rw [hprices] at hsame
  cases hsame
  rw [hrow] at hother
  cases hother
  exact ⟨⟨prices, hprices, hrow⟩, hfinite⟩

/-- The closing prices of a column are those of its rows. -/
theorem getElem?_closes {c : Cells} {closes : List Float} (h : c.closes = .ok closes) :
    closes.length = c.rows ∧ ∀ row price, closes[row]? = some price ↔ c.CloseAt row price := by
  cases hprices : c.prices? with
  | none => simp [Cells.closes, hprices] at h
  | some prices =>
    have hrows := (closes_eq_ok_iff hprices).1 h
    refine ⟨(length_of_readRows hrows).trans (length_prices? hprices), fun row price => ?_⟩
    rw [getElem?_of_readRows hrows, closeAt_iff hprices]

theorem exists_closes_iff {c : Cells} : (∃ closes, c.closes = .ok closes) ↔ c.AllCloses := by
  unfold AllCloses
  cases hprices : c.prices? with
  | none => simp [Cells.closes, hprices]
  | some prices =>
    simp only [closes_eq_ok_iff hprices, exists_readRows_iff, closeAt_iff hprices, length_prices? hprices,
      Option.isSome_some, true_and]

/-- A column has no closing prices if it cannot be made doubles, and else because of the first row that has
none. -/
theorem closes_eq_error_iff {c : Cells} {e : LoadError} :
    c.closes = .error e ↔
      (c.prices? = none ∧ e = .malformed) ∨
        ∃ row fault, c.CloseFault row fault ∧ (∀ i < row, ∃ price, c.CloseAt i price) ∧
          e = .invalid fault := by
  cases hprices : c.prices? with
  | none =>
    have hnone : ∀ row fault, ¬ c.CloseFault row fault := by
      intro row fault h
      cases h with
      | missing hsome => simp [hprices] at hsome
      | notFinite hprice =>
        obtain ⟨_, hsome, -⟩ := hprice
        simp [hprices] at hsome
    simp [Cells.closes, hprices, hnone, eq_comm]
  | some prices =>
    have herror : c.closes = .error e ↔ ∃ fault, readRows closeOf 0 prices = .error fault ∧ e = .invalid fault := by
      simp only [Cells.closes, hprices]
      cases readRows closeOf 0 prices <;> simp [eq_comm]
    simp only [herror, readRows_eq_error_iff, closeFault_iff hprices, closeAt_iff hprices, reduceCtorEq,
      false_and, false_or]
    constructor
    · rintro ⟨fault, ⟨row, hfault, hbefore⟩, rfl⟩
      exact ⟨row, fault, hfault, hbefore, rfl⟩
    · rintro ⟨row, fault, hfault, hbefore, rfl⟩
      exact ⟨fault, ⟨row, hfault, hbefore⟩, rfl⟩

/-! ## §2 Times -/

/-- Columns of strings, dates, times and whole numbers can be read as times. -/
def keepsTimes : Cells → Bool
  | .string _ => true
  | .time _ _ => true
  | .date _ => true
  | .whole _ _ => true
  | _ => false

/-- A row of a column has a time: a string that reads as it, or a count that stands for it. -/
inductive TimeAt (c : Cells) (row : Nat) (t : Instant) : Prop
  | text {values : List (Option String)} {text : String} (hcolumn : c = .string values)
      (hrow : values[row]? = some (some text)) (hread : Instant.read? text = some t)
  | count {s : Storage} {values : List (Option Int)} {n : Int} (hcolumn : c = s.cells values)
      (hrow : values[row]? = some (some n)) (hkeeps : s.Keeps n t)

/-- What is wrong with a row that has no time. A whole number beyond 64 bits counts as missing. -/
inductive TimeFault (c : Cells) (row : Nat) : DataFault → Prop
  | textMissing {values : List (Option String)} (hcolumn : c = .string values)
      (hrow : values[row]? = some none) : TimeFault c row (.timeMissing row)
  | textUnread {values : List (Option String)} {text : String} (hcolumn : c = .string values)
      (hrow : values[row]? = some (some text)) (hread : Instant.read? text = none) :
      TimeFault c row (.timeUnread text row)
  | countMissing {s : Storage} {values : List (Option Int)} {value : Option Int} (hcolumn : c = s.cells values)
      (hrow : values[row]? = some value) (hcount : s.count? value = none) : TimeFault c row (.timeMissing row)
  | countOutOfRange {s : Storage} {values : List (Option Int)} {value : Option Int} {n : Int}
      (hcolumn : c = s.cells values) (hrow : values[row]? = some value) (hcount : s.count? value = some n)
      (hrange : ∀ t, ¬ s.Keeps n t) : TimeFault c row (.timeOutOfRange n row)

/-- A column that can be read as times holds strings or counts. -/
theorem keepsTimes_iff {c : Cells} :
    c.keepsTimes = true ↔ (∃ values, c = .string values) ∨ ∃ (s : Storage) (values : _), c = s.cells values := by
  constructor
  · intro h
    cases c with
    | string values => exact .inl ⟨values, rfl⟩
    | time unit values => exact .inr ⟨.parts unit, values, rfl⟩
    | date values => exact .inr ⟨.days, values, rfl⟩
    | whole type values => exact .inr ⟨.seconds type, values, rfl⟩
    | _ => cases h
  · rintro (⟨values, rfl⟩ | ⟨s, values, rfl⟩)
    · rfl
    · cases s <;> rfl

theorem times_of_not_keepsTimes {c : Cells} (h : c.keepsTimes = false) :
    c.times = .error (.timeType c.typeName) := by
  cases c <;> first | rfl | cases h

section Text

variable {values : List (Option String)} {row : Nat}

theorem timeAt_string_iff {t : Instant} : (string values).TimeAt row t ↔ ReadAt timeOfText values row t := by
  constructor
  · intro h
    cases h with
    | text hcolumn hrow hread =>
      cases hcolumn
      exact ⟨_, hrow, (timeOfText_eq_ok_iff _ _ _).2 ⟨_, rfl, hread⟩⟩
    | @count s _ _ hcolumn => cases s <;> cases hcolumn
  · rintro ⟨value, hrow, hread⟩
    obtain ⟨text, rfl, htext⟩ := (timeOfText_eq_ok_iff _ _ _).1 hread
    exact .text rfl hrow htext

theorem timeFault_string_iff {fault : DataFault} :
    (string values).TimeFault row fault ↔ FaultAt timeOfText values row fault := by
  constructor
  · intro h
    cases h with
    | textMissing hcolumn hrow =>
      cases hcolumn
      exact ⟨none, hrow, rfl⟩
    | textUnread hcolumn hrow hread =>
      cases hcolumn
      exact ⟨_, hrow, by simp [timeOfText, hread]⟩
    | @countMissing s _ _ hcolumn => cases s <;> cases hcolumn
    | @countOutOfRange s _ _ _ hcolumn => cases s <;> cases hcolumn
  · rintro ⟨value, hrow, hread⟩
    cases value with
    | none =>
      cases hread
      exact .textMissing rfl hrow
    | some text =>
      cases htext : Instant.read? text with
      | none =>
        simp only [timeOfText, htext, Except.error.injEq] at hread
        exact hread ▸ .textUnread rfl hrow htext
      | some u => simp [timeOfText, htext] at hread

end Text

section Count

variable {s : Storage} {values : List (Option Int)} {row : Nat}

theorem cells_inj {r : Storage} {others : List (Option Int)} (h : s.cells values = r.cells others) :
    s = r ∧ values = others := by
  cases s <;> cases r <;> cases h <;> exact ⟨rfl, rfl⟩

theorem timeAt_cells_iff {t : Instant} :
    (s.cells values).TimeAt row t ↔ ReadAt (timeOfCount s.instant?) (values.map s.count?) row t := by
  have hread : ReadAt (timeOfCount s.instant?) (values.map s.count?) row t ↔
      ∃ value, values[row]? = some value ∧ s.Holds value t := by
    simp only [ReadAt, List.getElem?_map, Option.map_eq_some_iff, timeOfCount_eq_ok_iff,
      Storage.instant?_eq_some_iff, exists_exists_and_eq_and]
    exact exists_congr fun value => and_congr_right fun _ => Storage.holds_count?_iff
  rw [hread]
  constructor
  · intro h
    cases h with
    | text hcolumn => cases s <;> cases hcolumn
    | count hcolumn hrow hkeeps =>
      obtain ⟨rfl, rfl⟩ := cells_inj hcolumn
      exact ⟨_, hrow, _, rfl, hkeeps⟩
  · rintro ⟨_, hrow, n, rfl, hkeeps⟩
    exact .count rfl hrow hkeeps

theorem timeOfCount_eq_error_iff {value : Option Int} {fault : DataFault} :
    timeOfCount s.instant? row value = .error fault ↔
      (value = none ∧ fault = .timeMissing row) ∨
        ∃ n, value = some n ∧ (∀ t, ¬ s.Keeps n t) ∧ fault = .timeOutOfRange n row := by
  cases value with
  | none => simp [timeOfCount, eq_comm]
  | some n =>
    cases h : s.instant? n with
    | none =>
      have hnone : ∀ t, ¬ s.Keeps n t := by
        intro t ht
        rw [← Storage.instant?_eq_some_iff, h] at ht
        cases ht
      simp [timeOfCount, h, hnone, eq_comm]
    | some t =>
      have hkeeps : s.Keeps n t := Storage.instant?_eq_some_iff.1 h
      simp only [timeOfCount, h, reduceCtorEq, false_and, Option.some.injEq, false_or, false_iff]
      rintro ⟨_, rfl, hnone, -⟩
      exact hnone t hkeeps

theorem timeFault_cells_iff {fault : DataFault} :
    (s.cells values).TimeFault row fault ↔
      FaultAt (timeOfCount s.instant?) (values.map s.count?) row fault := by
  have hread : FaultAt (timeOfCount s.instant?) (values.map s.count?) row fault ↔
      ∃ value, values[row]? = some value ∧ timeOfCount s.instant? row (s.count? value) = .error fault := by
    simp only [FaultAt, List.getElem?_map, Option.map_eq_some_iff, exists_exists_and_eq_and]
  rw [hread]
  constructor
  · intro h
    cases h with
    | textMissing hcolumn => cases s <;> cases hcolumn
    | textUnread hcolumn => cases s <;> cases hcolumn
    | countMissing hcolumn hrow hcount =>
      obtain ⟨rfl, rfl⟩ := cells_inj hcolumn
      exact ⟨_, hrow, timeOfCount_eq_error_iff.2 (.inl ⟨hcount, rfl⟩)⟩
    | countOutOfRange hcolumn hrow hcount hrange =>
      obtain ⟨rfl, rfl⟩ := cells_inj hcolumn
      exact ⟨_, hrow, timeOfCount_eq_error_iff.2 (.inr ⟨_, hcount, hrange, rfl⟩)⟩
  · rintro ⟨value, hrow, hfault⟩
    rcases timeOfCount_eq_error_iff.1 hfault with ⟨hcount, rfl⟩ | ⟨n, hcount, hrange, rfl⟩
    · exact .countMissing rfl hrow hcount
    · exact .countOutOfRange rfl hrow hcount hrange

end Count

/-- How a column that can be read as times is read: row by row. -/
theorem times_eq_readRows {c : Cells} (h : c.keepsTimes = true) :
    ∃ (α : Type) (read : Nat → α → Except DataFault Instant) (values : List α),
      c.times = readRows read 0 values ∧ values.length = c.rows ∧
        (∀ row t, c.TimeAt row t ↔ ReadAt read values row t) ∧
        ∀ row fault, c.TimeFault row fault ↔ FaultAt read values row fault := by
  rcases keepsTimes_iff.1 h with ⟨values, rfl⟩ | ⟨s, values, rfl⟩
  · exact ⟨_, timeOfText, values, rfl, rfl, fun _ _ => timeAt_string_iff, fun _ _ => timeFault_string_iff⟩
  · refine ⟨_, timeOfCount s.instant?, values.map s.count?, s.times_cells values, ?_,
      fun _ _ => timeAt_cells_iff, fun _ _ => timeFault_cells_iff⟩
    cases s <;> simp [Storage.cells, rows]

/-- The times of a column are those of its rows. -/
theorem getElem?_times {c : Cells} {times : List Instant} (h : c.times = .ok times) :
    c.keepsTimes = true ∧ times.length = c.rows ∧ ∀ row t, times[row]? = some t ↔ c.TimeAt row t := by
  have hkeeps : c.keepsTimes = true := by
    cases hkeeps : c.keepsTimes with
    | true => rfl
    | false =>
      rw [times_of_not_keepsTimes hkeeps] at h
      cases h
  obtain ⟨_, read, values, htimes, hlength, hat, -⟩ := times_eq_readRows hkeeps
  rw [htimes] at h
  refine ⟨hkeeps, (length_of_readRows h).trans hlength, fun row t => ?_⟩
  rw [getElem?_of_readRows h, hat]

/-- All rows of a column have times. -/
def AllTimes (c : Cells) : Prop :=
  c.keepsTimes = true ∧ ∀ row < c.rows, ∃ t, c.TimeAt row t

theorem exists_times_iff {c : Cells} : (∃ times, c.times = .ok times) ↔ c.AllTimes := by
  unfold AllTimes
  cases hkeeps : c.keepsTimes with
  | false => simp [times_of_not_keepsTimes hkeeps]
  | true =>
    obtain ⟨_, read, values, htimes, hlength, hat, -⟩ := times_eq_readRows hkeeps
    simp only [htimes, exists_readRows_iff, hlength, hat, true_and]

/-- A column has no times if its type keeps none, and else because of the first row that has none. -/
theorem times_eq_error_iff {c : Cells} {fault : DataFault} :
    c.times = .error fault ↔
      (c.keepsTimes = false ∧ fault = .timeType c.typeName) ∨
        ∃ row, c.TimeFault row fault ∧ ∀ i < row, ∃ t, c.TimeAt i t := by
  cases hkeeps : c.keepsTimes with
  | false =>
    have hnone : ∀ row, ¬ c.TimeFault row fault := by
      intro row h
      have hno : ¬ c.keepsTimes = true := by simp [hkeeps]
      cases h with
      | textMissing hcolumn => exact hno (keepsTimes_iff.2 (.inl ⟨_, hcolumn⟩))
      | textUnread hcolumn => exact hno (keepsTimes_iff.2 (.inl ⟨_, hcolumn⟩))
      | countMissing hcolumn => exact hno (keepsTimes_iff.2 (.inr ⟨_, _, hcolumn⟩))
      | countOutOfRange hcolumn => exact hno (keepsTimes_iff.2 (.inr ⟨_, _, hcolumn⟩))
    simp [times_of_not_keepsTimes hkeeps, hnone, eq_comm]
  | true =>
    obtain ⟨_, read, values, htimes, -, hat, hfault⟩ := times_eq_readRows hkeeps
    simp only [htimes, readRows_eq_error_iff, hat, hfault, reduceCtorEq, false_and, false_or]

end Cells

/-! ## §3 Order -/

/-- The first neighbours of a column that are out of order, and that they are. -/
structure Cells.DisorderAt (c : Cells) (row : Nat) (s u : Instant) : Prop where
  earlier : c.TimeAt row s
  later : c.TimeAt (row + 1) u
  disordered : ¬ s.Before u
  first : ∀ i < row, ∀ s u, c.TimeAt i s → c.TimeAt (i + 1) u → s.Before u

/-- Each row of a column has a time before that of the next row. -/
def Cells.Ascending (c : Cells) : Prop :=
  ∀ row s u, c.TimeAt row s → c.TimeAt (row + 1) u → s.Before u

section Order

variable {c : Cells} {times : List Instant}

theorem firstDisorder?_times_iff (h : c.times = .ok times) {d : Disorder} :
    firstDisorder? times = some d ↔ ∃ row s u, c.DisorderAt row s u ∧ d = ⟨row + 1, s, u⟩ := by
  obtain ⟨-, -, hat⟩ := Cells.getElem?_times h
  rw [firstDisorder?_eq_some_iff]
  constructor
  · rintro ⟨i, ⟨hrow, hearlier, hlater, hdisordered⟩, hbefore⟩
    refine ⟨i, d.earlier, d.later, ⟨(hat _ _).1 hearlier, (hat _ _).1 hlater, hdisordered, ?_⟩, ?_⟩
    · intro j hj s u hs hu
      exact hbefore j hj s u ((hat _ _).2 hs) ((hat _ _).2 hu)
    · rw [← hrow]
  · rintro ⟨row, s, u, ⟨hearlier, hlater, hdisordered, hfirst⟩, rfl⟩
    refine ⟨row, ⟨rfl, (hat _ _).2 hearlier, (hat _ _).2 hlater, hdisordered⟩, ?_⟩
    intro j hj a b ha hb
    exact hfirst j hj a b ((hat _ _).1 ha) ((hat _ _).1 hb)

theorem pairwise_times_iff (h : c.times = .ok times) : times.Pairwise Instant.Before ↔ c.Ascending := by
  obtain ⟨-, -, hat⟩ := Cells.getElem?_times h
  constructor
  · intro hpairwise row s u hs hu
    obtain ⟨hrow, rfl⟩ := List.getElem?_eq_some_iff.1 ((hat _ _).2 hs)
    obtain ⟨hnext, rfl⟩ := List.getElem?_eq_some_iff.1 ((hat _ _).2 hu)
    exact List.pairwise_iff_getElem.1 hpairwise row (row + 1) hrow hnext (Nat.lt_succ_self row)
  · intro hascending
    rw [← firstDisorder?_eq_none_iff, Option.eq_none_iff_forall_ne_some]
    intro d hd
    obtain ⟨row, s, u, hdisorder, -⟩ := (firstDisorder?_times_iff h).1 hd
    exact hdisorder.disordered (hascending row s u hdisorder.earlier hdisorder.later)

end Order

/-! ## §4 Tables -/

namespace Table

theorem mem_of_column? {t : Table} {name : String} {c : Cells} (h : t.column? name = some c) :
    ∃ column ∈ t.columns, column.cells = c := by
  obtain ⟨column, hfind, rfl⟩ := Option.map_eq_some_iff.1 h
  exact ⟨column, List.mem_of_find?_eq_some hfind, rfl⟩

/-- Columns that fit together have as many rows. -/
theorem rows_eq_of_fit {columns : List Column} (hfit : fit columns = true) {a b : Column}
    (ha : a ∈ columns) (hb : b ∈ columns) : a.cells.rows = b.cells.rows := by
  cases columns with
  | nil => cases ha
  | cons first rest =>
    have hfirst : ∀ column ∈ first :: rest, column.cells.rows = first.cells.rows := by
      intro column hcolumn
      simp only [fit, Bool.and_eq_true, List.all_eq_true, beq_iff_eq] at hfit
      rcases List.mem_cons.1 hcolumn with rfl | hrest
      · rfl
      · exact hfit.2 column hrest
    rw [hfirst a ha, hfirst b hb]

theorem rows_eq {t : Table} (hfit : fit t.columns = true) {a b : String} {c d : Cells}
    (hc : t.column? a = some c) (hd : t.column? b = some d) : c.rows = d.rows := by
  obtain ⟨a, ha, rfl⟩ := mem_of_column? hc
  obtain ⟨b, hb, rfl⟩ := mem_of_column? hd
  exact rows_eq_of_fit hfit ha hb

/-- A table from which a series can be made. -/
structure WellFormed (t : Table) : Prop where
  closes : ∃ c, t.column? closeName = some c ∧ c.AllCloses ∧ 0 < c.rows
  times : ∀ d, t.column? timeName = some d → d.AllTimes ∧ d.Ascending

/-- The first thing that is wrong with a table: with its closing prices, with its times, that it has no
rows, or with the order of its times. -/
inductive Fault (t : Table) : LoadError → Prop
  | noCloses (hcloses : t.column? closeName = none) : Fault t (.missingColumn closeName)
  | uncast {c : Cells} (hcloses : t.column? closeName = some c) (h : c.prices? = none) : Fault t .malformed
  | badClose {c : Cells} {row : Nat} {fault : DataFault} (hcloses : t.column? closeName = some c)
      (h : c.CloseFault row fault) (hbefore : ∀ i < row, ∃ price, c.CloseAt i price) :
      Fault t (.invalid fault)
  | timeType {c d : Cells} (hcloses : t.column? closeName = some c) (hall : c.AllCloses)
      (htimes : t.column? timeName = some d) (h : d.keepsTimes = false) :
      Fault t (.invalid (.timeType d.typeName))
  | badTime {c d : Cells} {row : Nat} {fault : DataFault} (hcloses : t.column? closeName = some c)
      (hall : c.AllCloses) (htimes : t.column? timeName = some d) (h : d.TimeFault row fault)
      (hbefore : ∀ i < row, ∃ u, d.TimeAt i u) : Fault t (.invalid fault)
  | empty {c : Cells} (hcloses : t.column? closeName = some c) (hall : c.AllCloses)
      (htimes : ∀ d, t.column? timeName = some d → d.AllTimes) (h : c.rows = 0) :
      Fault t (.invalid (.series .empty))
  | unordered {c d : Cells} {row : Nat} {s u : Instant} (hcloses : t.column? closeName = some c)
      (hall : c.AllCloses) (htimes : t.column? timeName = some d) (htimesAll : d.AllTimes)
      (h : d.DisorderAt row s u) : Fault t (.invalid (.series (.unordered ⟨row + 1, s, u⟩)))

/-- What a series says is what the rows of a table say. -/
structure Observes (t : Table) (s : Series) : Prop where
  size : ∀ c, t.column? closeName = some c → s.size = c.rows
  close : ∀ c, t.column? closeName = some c → ∀ row price, s.closes[row]? = some price ↔ c.PriceAt row price
  position : t.column? timeName = none → ∀ row < s.size, s.label? row = some (.position row)
  time : ∀ d, t.column? timeName = some d → ∀ row u, s.label? row = some (.time u) ↔ d.TimeAt row u

variable {t : Table}

theorem series_of_noCloses (h : t.column? closeName = none) :
    t.series = .error (.missingColumn closeName) := by
  simp [series, h]

theorem series_of_closes_error {c : Cells} {e : LoadError} (hc : t.column? closeName = some c)
    (h : c.closes = .error e) : t.series = .error e := by
  simp [series, hc, h]

theorem series_timed {c d : Cells} {closes : List Float} (hc : t.column? closeName = some c)
    (hcloses : c.closes = .ok closes) (hd : t.column? timeName = some d) :
    t.series = (timedSeries closes d).mapError .invalid := by
  simp only [series, hc, hcloses, hd]
  cases timedSeries closes d <;> rfl

theorem series_untimed {c : Cells} {closes : List Float} (hc : t.column? closeName = some c)
    (hcloses : c.closes = .ok closes) (hd : t.column? timeName = none) :
    t.series = (Series.ofCloses closes).mapError fun fault => .invalid (.series fault) := by
  simp only [series, hc, hcloses, hd]
  cases Series.ofCloses closes <;> rfl

/-- There are as many times as closing prices. -/
theorem length_times_eq (hfit : fit t.columns = true) {c d : Cells} {closes : List Float}
    {times : List Instant} (hc : t.column? closeName = some c) (hcloses : c.closes = .ok closes)
    (hd : t.column? timeName = some d) (htimes : d.times = .ok times) : times.length = closes.length := by
  rw [(Cells.getElem?_times htimes).2.1, (Cells.getElem?_closes hcloses).1, rows_eq hfit hd hc]

/-- What is found to be wrong is the first thing that is. -/
theorem Fault.series_eq (hfit : fit t.columns = true) {e : LoadError} (h : t.Fault e) :
    t.series = .error e := by
  cases h with
  | noCloses hcloses => exact series_of_noCloses hcloses
  | uncast hcloses h => exact series_of_closes_error hcloses (Cells.closes_eq_error_iff.2 (.inl ⟨h, rfl⟩))
  | badClose hcloses h hbefore =>
    exact series_of_closes_error hcloses (Cells.closes_eq_error_iff.2 (.inr ⟨_, _, h, hbefore, rfl⟩))
  | timeType hcloses hall htimes h =>
    obtain ⟨closes, hok⟩ := Cells.exists_closes_iff.2 hall
    rw [series_timed hcloses hok htimes, timedSeries, Cells.times_of_not_keepsTimes h]
    rfl
  | badTime hcloses hall htimes h hbefore =>
    obtain ⟨closes, hok⟩ := Cells.exists_closes_iff.2 hall
    rw [series_timed hcloses hok htimes, timedSeries, Cells.times_eq_error_iff.2 (.inr ⟨_, h, hbefore⟩)]
    rfl
  | @empty c hcloses hall htimes h =>
    obtain ⟨closes, hok⟩ := Cells.exists_closes_iff.2 hall
    have hnil : closes = [] := List.length_eq_zero_iff.1 ((Cells.getElem?_closes hok).1.trans h)
    cases hd : t.column? timeName with
    | none =>
      rw [series_untimed hcloses hok hd, hnil]
      rfl
    | some d =>
      obtain ⟨times, htimesOk⟩ := Cells.exists_times_iff.2 (htimes d hd)
      rw [series_timed hcloses hok hd, timedSeries, htimesOk, hnil]
      rfl
  | @unordered c d row s u hcloses hall htimes htimesAll h =>
    obtain ⟨closes, hok⟩ := Cells.exists_closes_iff.2 hall
    obtain ⟨times, htimesOk⟩ := Cells.exists_times_iff.2 htimesAll
    have hdisorder := (firstDisorder?_times_iff htimesOk).2 ⟨row, s, u, h, rfl⟩
    have hrow : row < times.length :=
      (List.getElem?_eq_some_iff.1 (((Cells.getElem?_times htimesOk).2.2 row s).2 h.earlier)).1
    have hlength := length_times_eq hfit hcloses hok htimes htimesOk
    have hne : closes ≠ [] := List.ne_nil_of_length_pos (by omega)
    rw [series_timed hcloses hok htimes, timedSeries, htimesOk]
    simp only [(Series.ofTimed_eq_error_iff hlength).2 (.inr ⟨hne, _, hdisorder, rfl⟩)]
    rfl

/-- Where no series is made of sound prices and a column of times, the times are at fault, or there are no
rows, or the order is. -/
theorem fault_of_timed (hfit : fit t.columns = true) {c d : Cells} {closes : List Float} {fault : DataFault}
    (hc : t.column? closeName = some c) (hcloses : c.closes = .ok closes)
    (hd : t.column? timeName = some d) (h : timedSeries closes d = .error fault) :
    t.Fault (.invalid fault) := by
  have hall := Cells.exists_closes_iff.1 ⟨closes, hcloses⟩
  unfold timedSeries at h
  cases htimes : d.times with
  | error fault' =>
    simp only [htimes] at h
    cases h
    rcases Cells.times_eq_error_iff.1 htimes with ⟨htype, rfl⟩ | ⟨row, hfault, hbefore⟩
    · exact .timeType hc hall hd htype
    · exact .badTime hc hall hd hfault hbefore
  | ok times =>
    have htimesAll := Cells.exists_times_iff.1 ⟨times, htimes⟩
    have hlength := length_times_eq hfit hc hcloses hd htimes
    cases hseries : Series.ofTimed closes times with
    | ok s => simp [htimes, hseries] at h
    | error fault' =>
      simp only [htimes, hseries] at h
      cases h
      rcases (Series.ofTimed_eq_error_iff hlength).1 hseries with ⟨rfl, rfl⟩ | ⟨-, d', hdisorder, rfl⟩
      · refine .empty hc hall ?_ (Cells.getElem?_closes hcloses).1.symm
        intro d' hd'
        rw [hd] at hd'
        cases hd'
        exact htimesAll
      · obtain ⟨row, s, u, hat, rfl⟩ := (firstDisorder?_times_iff htimes).1 hdisorder
        exact .unordered hc hall hd htimesAll hat

/-- A table from which no series is made has something wrong with it. -/
theorem fault_of_series_eq (hfit : fit t.columns = true) {e : LoadError} (h : t.series = .error e) :
    t.Fault e := by
  cases hc : t.column? closeName with
  | none =>
    rw [series_of_noCloses hc] at h
    cases h
    exact .noCloses hc
  | some c =>
    cases hcloses : c.closes with
    | error e' =>
      rw [series_of_closes_error hc hcloses] at h
      cases h
      rcases Cells.closes_eq_error_iff.1 hcloses with ⟨huncast, rfl⟩ | ⟨row, fault, hfault, hbefore, rfl⟩
      · exact .uncast hc huncast
      · exact .badClose hc hfault hbefore
    | ok closes =>
      cases hd : t.column? timeName with
      | none =>
        rw [series_untimed hc hcloses hd, Series.ofCloses] at h
        split at h
        · rename_i hnil
          cases h
          have hrows := (Cells.getElem?_closes hcloses).1
          rw [hnil] at hrows
          exact .empty hc (Cells.exists_closes_iff.1 ⟨closes, hcloses⟩) (by simp [hd]) hrows.symm
        · cases h
      | some d =>
        rw [series_timed hc hcloses hd] at h
        cases hseries : timedSeries closes d with
        | ok s =>
          rw [hseries] at h
          cases h
        | error fault =>
          rw [hseries] at h
          cases h
          exact fault_of_timed hfit hc hcloses hd hseries

/-- The closing prices of a series are those of its table. -/
theorem exists_closes_of_series_eq {s : Series} (h : t.series = .ok s) :
    ∃ c, t.column? closeName = some c ∧ c.closes = .ok s.closes ∧
      (t.column? timeName = none → s.times = none) ∧
      ∀ d, t.column? timeName = some d → ∃ times, d.times = .ok times ∧ s.times = some times ∧
        times.Pairwise Instant.Before := by
  cases hc : t.column? closeName with
  | none =>
    rw [series_of_noCloses hc] at h
    cases h
  | some c =>
    cases hcloses : c.closes with
    | error e =>
      rw [series_of_closes_error hc hcloses] at h
      cases h
    | ok closes =>
      cases hd : t.column? timeName with
      | none =>
        rw [series_untimed hc hcloses hd, Series.ofCloses] at h
        split at h
        · cases h
        · cases h
          refine ⟨c, rfl, hcloses, fun _ => rfl, ?_⟩
          rintro _ ⟨⟩
      | some d =>
        rw [series_timed hc hcloses hd] at h
        cases hseries : timedSeries closes d with
        | error fault =>
          rw [hseries] at h
          cases h
        | ok r =>
          rw [hseries] at h
          cases h
          obtain ⟨times, htimes, hofTimed⟩ := timedSeries_eq_ok_iff.1 hseries
          obtain ⟨⟨-, -, hpairwise⟩, rfl, hsome⟩ := Series.ofTimed_eq_ok_iff.1 hofTimed
          refine ⟨c, rfl, hcloses, ?_, ?_⟩
          · rintro ⟨⟩
          · rintro _ ⟨⟩
            exact ⟨times, htimes, hsome, hpairwise⟩

theorem wellFormed_of_series_eq {s : Series} (h : t.series = .ok s) : t.WellFormed := by
  obtain ⟨c, hc, hcloses, -, htimes⟩ := exists_closes_of_series_eq h
  constructor
  · refine ⟨c, hc, Cells.exists_closes_iff.1 ⟨_, hcloses⟩, ?_⟩
    rw [← (Cells.getElem?_closes hcloses).1]
    exact List.length_pos_iff.2 s.closes_ne_nil
  · intro d hd
    obtain ⟨times, hok, -, hpairwise⟩ := htimes d hd
    exact ⟨Cells.exists_times_iff.1 ⟨times, hok⟩, (pairwise_times_iff hok).1 hpairwise⟩

/-- A series says what its table says. -/
theorem observes_of_series_eq {s : Series} (h : t.series = .ok s) : t.Observes s := by
  obtain ⟨c, hc, hcloses, huntimed, htimed⟩ := exists_closes_of_series_eq h
  obtain ⟨hlength, hat⟩ := Cells.getElem?_closes hcloses
  constructor
  · intro c' hc'
    rw [hc] at hc'
    cases hc'
    exact hlength
  · intro c' hc' row price
    rw [hc] at hc'
    cases hc'
    rw [hat]
    exact ⟨And.left, Cells.closeAt_of_priceAt (Cells.exists_closes_iff.1 ⟨_, hcloses⟩)⟩
  · intro hnone row _
    simp [Series.label?, huntimed hnone]
  · intro d hd row u
    obtain ⟨times, hok, hsome, -⟩ := htimed d hd
    rw [← (Cells.getElem?_times hok).2.2 row u]
    simp [Series.label?, hsome]

/-- A well-formed table has nothing wrong with it. -/
theorem WellFormed.exists_series (hfit : fit t.columns = true) (h : t.WellFormed) :
    ∃ s, t.series = .ok s := by
  obtain ⟨⟨c, hc, hall, hpos⟩, htimes⟩ := h
  obtain ⟨closes, hcloses⟩ := Cells.exists_closes_iff.2 hall
  have hne : closes ≠ [] := List.ne_nil_of_length_pos ((Cells.getElem?_closes hcloses).1 ▸ hpos)
  cases hd : t.column? timeName with
  | none =>
    rw [series_untimed hc hcloses hd, Series.ofCloses, dif_neg hne]
    exact ⟨_, rfl⟩
  | some d =>
    obtain ⟨htimesAll, hascending⟩ := htimes d hd
    obtain ⟨times, hok⟩ := Cells.exists_times_iff.2 htimesAll
    have hlength := length_times_eq hfit hc hcloses hd hok
    obtain ⟨s, hs⟩ := Series.exists_ofTimed_iff.2 ⟨hne, hlength, (pairwise_times_iff hok).2 hascending⟩
    refine ⟨s, ?_⟩
    rw [series_timed hc hcloses hd, timedSeries_eq_ok_iff.2 ⟨times, hok, hs⟩]
    rfl

end Table

/-- **The verdict on a table.** A series is made exactly of the well-formed tables: those with a column of
closing prices that can be made doubles, at least one row, a finite price in each row and, if there is a column
of times, one of a type that keeps times, with a time in each row that is before that of the next row. The series
has one bar for each row, in the order of the rows, with the price of the row and its time, or its position if
there are no times. Otherwise the fault is the first of these: no closing prices; closing prices that cannot be
made doubles; the first row without a finite price; a type that keeps no times; the first row without a time;
no rows; the first two neighbours out of order. -/
theorem table_verdict (t : Table) (hfit : Table.fit t.columns = true) :
    ((∃ s, t.series = .ok s) ↔ t.WellFormed) ∧
      (∀ s, t.series = .ok s → t.Observes s) ∧
      (∀ e, t.series = .error e ↔ t.Fault e) := by
  refine ⟨⟨?_, fun h => h.exists_series hfit⟩, fun s h => Table.observes_of_series_eq h, fun e => ?_⟩
  · rintro ⟨s, hs⟩
    exact Table.wellFormed_of_series_eq hs
  · exact ⟨Table.fault_of_series_eq hfit, Table.Fault.series_eq hfit⟩

/-- A table with something wrong in each row. -/
def spoiltTable : Table where
  columns := [⟨Table.timeName, .string [some "yesterday", none, some "2024-01-03"]⟩,
    ⟨Table.closeName, .double [some 1.0, none, some (1.0 / 0.0)]⟩]

/-- A table of two days around the turn of a year. -/
def newYearTable : Table where
  columns := [⟨Table.closeName, .whole .i64 [some 3, some 5]⟩, ⟨Table.timeName, .date [some (-1), some 0]⟩]

/-- The first missing price counts before any time, and days make a series whose labels are their midnights. -/
theorem table_verdict_of_spoilt :
    Table.fit spoiltTable.columns = true ∧
    spoiltTable.series = .error (.invalid (.closeMissing 1)) ∧ ¬ spoiltTable.WellFormed ∧
    Table.fit newYearTable.columns = true ∧
    ∃ s, newYearTable.series = .ok s ∧ s.size = 2 ∧
      s.label? 0 = some (.time ⟨-86400, 0, by decide, by decide⟩) := by
  have hspoilt : Table.fit spoiltTable.columns = true := by decide +kernel
  have hnewYear : Table.fit newYearTable.columns = true := by decide +kernel
  have hfault : spoiltTable.Fault (.invalid (.closeMissing 1)) := by
    refine .badClose rfl (.missing rfl rfl) fun i hi => ?_
    obtain rfl : i = 0 := by omega
    exact ⟨1.0, ⟨_, rfl, rfl⟩, by decide +kernel⟩
  have herror := ((table_verdict spoiltTable hspoilt).2.2 _).2 hfault
  refine ⟨hspoilt, herror, ?_, hnewYear, ?_⟩
  · intro h
    obtain ⟨s, hs⟩ := (table_verdict spoiltTable hspoilt).1.2 h
    rw [herror] at hs
    cases hs
  · have hcloses : (Cells.whole .i64 [some 3, some 5]).AllCloses := by
      refine ⟨rfl, fun row hrow => ?_⟩
      have htwo : row = 0 ∨ row = 1 := by
        simp only [Cells.rows, List.length_cons, List.length_nil] at hrow
        omega
      rcases htwo with rfl | rfl
      · exact ⟨_, ⟨_, rfl, rfl⟩, by decide +kernel⟩
      · exact ⟨_, ⟨_, rfl, rfl⟩, by decide +kernel⟩
    have htimes : (Cells.date [some (-1), some 0]).times =
        .ok [⟨-86400, 0, by decide, by decide⟩, ⟨0, 0, by decide, by decide⟩] := rfl
    have hwell : newYearTable.WellFormed := by
      refine ⟨⟨_, rfl, hcloses, by decide⟩, ?_⟩
      rintro _ ⟨⟩
      exact ⟨Cells.exists_times_iff.1 ⟨_, htimes⟩, (pairwise_times_iff htimes).1 (by decide)⟩
    obtain ⟨s, hs⟩ := (table_verdict newYearTable hnewYear).1.2 hwell
    have hobserves := (table_verdict newYearTable hnewYear).2.1 s hs
    refine ⟨s, hs, hobserves.size _ rfl, ?_⟩
    exact (hobserves.time _ rfl 0 _).2 (((Cells.getElem?_times htimes).2.2 0 _).1 rfl)

end Crossover
