/-
Crossover.Proofs.Calendar.Reading — what a layout makes of a text that was written for it.

A layout reads its items one after the other. For each kind of item there is one equation that takes the
text written for it off the head and enters its number, whatever items follow (`Layout.run?_digits`,
`run?_mark`, `run?_gap`, `run?_signedYear`, `run?_fraction`). Dates and clocks are rewritten with these, field
by field.

  §1 Numbers    — runs of digits at a width.
  §2 Items      — one equation for each.
  §3 Composites — loose fields, dates and clocks.
-/
import Crossover.Calendar.Layout
import Crossover.Proofs.Text.Digits

namespace Crossover

open Text Digits

/-! ## §1 Numbers -/

namespace Item

/-- A run of digits is a number if it is long enough, and is read up to where it ends. -/
theorem number?_run {least most : Nat} {run rest : List Char} (h : ∀ c ∈ run, c.isDigit = true)
    (hleast : least ≤ run.length) (hmost : run.length ≤ most) (hrest : run.length = most ∨ Stops rest) :
    number? least most (run ++ rest) = some (value run, rest) := by
  rw [number?, takeAtMost_run h hmost hrest]
  exact if_neg (Nat.not_lt.2 hleast)

/-- A number filled up to the greatest width is read back, whatever follows it. -/
theorem number?_padded {least width n : Nat} (hwidth : 0 < width) (hleast : least ≤ width)
    (hn : n < 10 ^ width) (rest : List Char) :
    number? least width (padded width n ++ rest) = some (n, rest) := by
  have hlength := length_padded hwidth hn
  rw [number?_run (isDigit_of_mem_padded width n) (by omega) (by omega) (.inl hlength), value_padded]

/-- No number starts with another character than a digit. -/
theorem number?_eq_none {least most : Nat} {cs : List Char} (hleast : 0 < least) (h : Stops cs) :
    number? least most cs = none := by
  have hrun : takeAtMost most ([] ++ cs) = ([], cs) := takeAtMost_run nofun (Nat.zero_le _) (.inr h)
  rw [number?, ← List.nil_append cs, hrun]
  exact if_pos hleast

/-- The nanoseconds of a fraction are what its digits stand for, rounded down. -/
theorem nanos_eq {digits : List Char} (h : ∀ c ∈ digits, c.isDigit = true) :
    nanos digits = value digits * Instant.billion / 10 ^ digits.length := by
  have hbillion : Instant.billion = 10 ^ 9 := rfl
  by_cases hshort : digits.length ≤ 9
  · have hsplit : value digits * 10 ^ 9 = value digits * 10 ^ (9 - digits.length) * 10 ^ digits.length := by
      rw [Nat.mul_assoc, ← Nat.pow_add, Nat.sub_add_cancel hshort]
    rw [nanos, List.take_of_length_le hshort, List.rightpad, value_append_zeros, hbillion, hsplit,
      Nat.mul_div_cancel _ (Nat.pow_pos (by decide))]
  · -- The digits past the ninth stand for less than one nanosecond.
    have hlength : (digits.take 9).length = 9 := by
      rw [List.length_take]
      omega
    have hrest : value (digits.drop 9) < 10 ^ (digits.length - 9) := by
      simpa using value_lt fun c hc => h c (List.mem_of_mem_drop hc)
    have hvalue : value digits =
        10 ^ (digits.length - 9) * value (digits.take 9) + value (digits.drop 9) := by
      rw [Nat.mul_comm, ← List.length_drop, ← value_append, List.take_append_drop]
    have hplaces : 10 ^ digits.length = 10 ^ (digits.length - 9) * 10 ^ 9 := by
      rw [← Nat.pow_add, Nat.sub_add_cancel (by omega)]
    rw [nanos, List.rightpad, value_append_zeros, hlength, Nat.sub_self, Nat.pow_zero, Nat.mul_one, hbillion,
      hplaces, Nat.mul_div_mul_right _ _ (by decide), hvalue, Nat.mul_add_div (Nat.pow_pos (by decide)),
      Nat.div_eq_of_lt hrest, Nat.add_zero]

/-- A year that starts with a digit has up to four of them. -/
theorem read?_signedYear_digit (r : Reading) {c : Char} (h : c.isDigit = true) (rest : List Char) :
    read? r (c :: rest) signedYear =
      (number? 1 4 (c :: rest)).map fun (n, left) => ({ r with year := n }, left) := by
  have hminus : c ≠ '-' := by
    rintro rfl
    simp at h
  have hplus : c ≠ '+' := by
    rintro rfl
    simp at h
  simp only [read?]
  split
  · rename_i heq
    exact absurd (List.cons.inj heq).1 hminus
  · rename_i heq
    exact absurd (List.cons.inj heq).1 hplus
  · rfl

theorem read?_fraction_missing (r : Reading) {cs : List Char} (h : cs.head? ≠ some '.') :
    read? r cs fraction = some (r, cs) := by
  cases cs with
  | nil => rfl
  | cons c rest =>
    have hpoint : c ≠ '.' := fun heq => h (heq ▸ rfl)
    simp [read?, hpoint]

end Item

/-! ## §2 Items -/

namespace Layout

variable (r : Reading)

/-- An item that reads a text is done with it. -/
theorem run?_cons {r' : Reading} {cs rest : List Char} {item : Item}
    (h : item.read? r cs = some (r', rest)) (items : Layout) :
    run? r cs (item :: items) = run? r' rest items := by
  simp only [run?, h]

theorem run?_digits {part : Part} {least width n : Nat} (hwidth : 0 < width) (hleast : least ≤ width)
    (hn : n < 10 ^ width) (rest : List Char) (items : Layout) :
    run? r (padded width n ++ rest) (.digits part least width :: items) =
      run? (r.enter part n) rest items := by
  refine run?_cons r ?_ items
  simp only [Item.read?, Item.number?_padded hwidth hleast hn, Option.map_some]

theorem run?_oneOf {marks : List Char} {c : Char} (h : c ∈ marks) (rest : List Char) (items : Layout) :
    run? r (c :: rest) (.oneOf marks :: items) = run? r rest items := by
  refine run?_cons r ?_ items
  exact if_pos (List.contains_iff_mem.2 h)

theorem run?_mark (c : Char) (rest : List Char) (items : Layout) :
    run? r (c :: rest) (mark c :: items) = run? r rest items :=
  run?_oneOf r List.mem_cons_self rest items

/-- White space may be missing. -/
theorem run?_gap {c : Char} (h : isBlank c = false) (rest : List Char) (items : Layout) :
    run? r (c :: rest) (.gap :: items) = run? r (c :: rest) items :=
  run?_cons r (by rw [Item.read?, skipBlanks_cons h]) items

/-- A mark is taken off a text also where white space may stand before it. -/
theorem run?_gap_mark {c : Char} (h : isBlank c = false) (rest : List Char) (items : Layout) :
    run? r (c :: rest) (.gap :: mark c :: items) = run? r rest items :=
  (run?_gap r h rest _).trans (run?_mark r c rest items)

/-- A space is taken, and nothing after it that is no white space. -/
theorem run?_space {c : Char} (h : isBlank c = false) (rest : List Char) (items : Layout) :
    run? r (' ' :: c :: rest) (.gap :: items) = run? r (c :: rest) items := by
  have hskip : skipBlanks (' ' :: c :: rest) = c :: rest := skipBlanks_cons h rest
  exact run?_cons r (by rw [Item.read?, hskip]) items

/-- A year is read with its sign and all its digits. -/
theorem run?_signedYear (year : Int) {rest : List Char} (hrest : Stops rest) (items : Layout) :
    run? r (Instant.yearChars year ++ rest) (.signedYear :: items) =
      run? { r with year := year } rest items := by
  have hpositive : 1 ≤ (padded 4 year.natAbs).length :=
    List.length_pos_iff.2 (padded_ne_nil 4 year.natAbs)
  -- Behind a sign there is no limit on the digits, so that they end where the year ends.
  have hsigned : ∀ most, (padded 4 year.natAbs).length ≤ most →
      Item.number? 1 most (padded 4 year.natAbs ++ rest) = some (year.natAbs, rest) := by
    intro most hmost
    rw [Item.number?_run (isDigit_of_mem_padded _ _) hpositive hmost (.inr hrest), value_padded]
  refine run?_cons r ?_ items
  unfold Instant.yearChars
  split
  · have hyear : -(year.natAbs : Int) = year := by omega
    have hnumber := hsigned (padded 4 year.natAbs ++ rest).length (by simp)
    simp only [List.cons_append, Item.read?, hnumber, Option.map_some, hyear]
  · have hyear : (year.natAbs : Int) = year := by omega
    split
    · have hnumber := hsigned (padded 4 year.natAbs ++ rest).length (by simp)
      simp only [List.cons_append, Item.read?, hnumber, Option.map_some, hyear]
    · have hwidth : (padded 4 year.natAbs).length = 4 := length_padded (by decide) (by omega)
      have hnumber := hsigned 4 (by omega)
      obtain ⟨c, more, hchars, hdigit⟩ := padded_eq_cons 4 year.natAbs
      rw [hchars, List.cons_append] at hnumber ⊢
      simp only [Item.read?_signedYear_digit r hdigit, hnumber, Option.map_some, hyear]

/-- How a part of a second may be written: not at all if it is nothing, or with a point and digits, where
what is less than a nanosecond does not count. -/
inductive FractionText (nano : Nat) : List Char → Prop
  | missing (h : nano = 0) : FractionText nano []
  | point {digits : List Char} (hne : digits ≠ []) (hdigits : ∀ c ∈ digits, c.isDigit = true)
      (h : nano = value digits * Instant.billion / 10 ^ digits.length) : FractionText nano ('.' :: digits)

/-- A fraction is read as what it stands for, and no fraction is left as zero. -/
theorem run?_fractionText {nano : Nat} {fraction : List Char} (h : FractionText nano fraction)
    (hzero : r.nano = 0) {rest : List Char} (hrest : Stops rest) (hpoint : rest.head? ≠ some '.')
    (items : Layout) :
    run? r (fraction ++ rest) (.fraction :: items) = run? { r with nano := nano } rest items := by
  refine run?_cons r ?_ items
  cases h with
  | missing hnone =>
    have hsame : { r with nano := nano } = r := by rw [hnone, ← hzero]
    rw [hsame]
    exact Item.read?_fraction_missing r hpoint
  | @point digits hne hdigits hnano =>
    have hsome : digits.isEmpty = false := List.isEmpty_eq_false_iff.2 hne
    have htake := takeAll_run hdigits hrest
    simp only [List.cons_append, Item.read?, htake, hsome, Item.nanos_eq hdigits, hnano]
    rfl

/-- Up to nine digits of a fraction are exact. -/
theorem fractionText_padded {nano width n : Nat} (hwidth : 0 < width) (hmost : width ≤ 9)
    (hn : n < 10 ^ width) (hexact : n * 10 ^ (9 - width) = nano) :
    FractionText nano ('.' :: padded width n) := by
  refine .point (padded_ne_nil width n) (isDigit_of_mem_padded width n) ?_
  have hbillion : Instant.billion = 10 ^ (9 - width) * 10 ^ width := by
    rw [← Nat.pow_add, Nat.sub_add_cancel hmost]
    rfl
  rw [value_padded, length_padded hwidth hn, hbillion, ← Nat.mul_assoc, hexact,
    Nat.mul_div_cancel _ (Nat.pow_pos (by decide))]

theorem fractionText_fractionChars {nano : Nat} (hnano : nano < Instant.billion) :
    FractionText nano (Instant.fractionChars nano) := by
  unfold Instant.billion at hnano
  unfold Instant.fractionChars
  split
  · rename_i hnone
    exact .missing hnone
  · split
    · exact fractionText_padded (by decide) (by decide) (by omega) (by omega)
    · split
      · exact fractionText_padded (by decide) (by decide) (by omega) (by omega)
      · exact fractionText_padded (by decide) (by decide) (by omega) (by omega)

/-- A fraction is read back exactly. -/
theorem run?_fraction {nano : Nat} (hzero : r.nano = 0) (hnano : nano < Instant.billion)
    {rest : List Char} (hrest : Stops rest) (hpoint : rest.head? ≠ some '.') (items : Layout) :
    run? r (Instant.fractionChars nano ++ rest) (.fraction :: items) =
      run? { r with nano := nano } rest items :=
  run?_fractionText r (fractionText_fractionChars hnano) hzero hrest hpoint items

/-! ## §3 Composites -/

/-- A year starts with a sign or a digit. -/
theorem yearChars_eq_cons (year : Int) :
    ∃ c rest, Instant.yearChars year = c :: rest ∧ isBlank c = false := by
  obtain ⟨c, rest, hchars, hdigit⟩ := padded_eq_cons 4 year.natAbs
  unfold Instant.yearChars
  split
  · exact ⟨_, _, rfl, rfl⟩
  · split
    · exact ⟨_, _, rfl, rfl⟩
    · exact ⟨c, rest, hchars, isBlank_of_isDigit hdigit⟩

/-- No white space is taken in front of a year. -/
theorem run?_gap_year (year : Int) (rest : List Char) (items : Layout) :
    run? r (Instant.yearChars year ++ rest) (.gap :: items) =
      run? r (Instant.yearChars year ++ rest) items := by
  obtain ⟨c, more, hchars, hblank⟩ := yearChars_eq_cons year
  rw [hchars]
  exact run?_gap r hblank _ items

/-- A field of two digits, white space before it possible. -/
theorem run?_loose {part : Part} {n : Nat} (hn : n < 100) (rest : List Char) (items : Layout) :
    run? r (padded 2 n ++ rest) (loose part ++ items) = run? (r.enter part n) rest items := by
  have hread : run? r (padded 2 n ++ rest) (.digits part 1 2 :: items) =
      run? (r.enter part n) rest items :=
    run?_digits r (by decide) (by decide) hn rest items
  obtain ⟨c, more, hchars, hdigit⟩ := padded_eq_cons 2 n
  rw [hchars, List.cons_append] at hread ⊢
  exact (run?_gap r (isBlank_of_isDigit hdigit) _ _).trans hread

/-- A loose date takes a date off a text, however many digits its year has. -/
theorem run?_looseDate {c : Civil} (hmonth : c.month < 100) (hday : c.day < 100) (rest : List Char)
    (items : Layout) :
    run? r (Instant.dateChars c ++ rest) (looseDate ++ items) =
      run? { r with year := c.year, month := c.month, day := c.day } rest items := by
  simp only [Instant.dateChars, looseDate, List.append_assoc, List.cons_append, List.nil_append]
  rw [run?_gap_year, run?_signedYear r c.year (stops_cons rfl _), run?_mark, run?_loose _ hmonth,
    run?_mark, run?_loose _ hday]
  rfl

/-- A loose clock takes a time of day off a text. -/
theorem run?_looseClock {hour minute second : Nat} (hhour : hour < 100) (hminute : minute < 100)
    (hsecond : second < 100) (rest : List Char) (items : Layout) :
    run? r (padded 2 hour ++ ':' :: padded 2 minute ++ ':' :: padded 2 second ++ rest)
        (looseClock ++ items) =
      run? { r with hour := hour, minute := minute, second := second } rest items := by
  simp only [looseClock, List.append_assoc, List.cons_append]
  rw [run?_loose r hhour, run?_mark, run?_loose _ hminute, run?_mark, run?_loose _ hsecond]
  rfl

/-- A field of two digits at its full width. -/
theorem run?_field {part : Part} {n : Nat} (hn : n < 100) (rest : List Char) (items : Layout) :
    run? r (padded 2 n ++ rest) (.digits part 2 2 :: items) = run? (r.enter part n) rest items :=
  run?_digits r (by decide) (by decide) hn rest items

/-- The internet format takes a date and a time of day off a text, every number at its full width. -/
theorem run?_internet {year month day hour minute second : Nat} {separator : Char}
    (hyear : year < 10000) (hmonth : month < 100) (hday : day < 100)
    (hseparator : separator ∈ ['T', 't', ' ']) (hhour : hour < 100) (hminute : minute < 100)
    (hsecond : second < 100) (rest : List Char) :
    run? r (padded 4 year ++ '-' :: padded 2 month ++ '-' :: padded 2 day ++ separator ::
        (padded 2 hour ++ ':' :: padded 2 minute ++ ':' :: padded 2 second ++ rest)) internet =
      run? { r with year := year, month := month, day := day, hour := hour, minute := minute,
                    second := second } rest [.fraction, .zone] := by
  have hfirst : ∀ (left : List Char) (items : Layout),
      run? r (padded 4 year ++ left) (.digits .year 4 4 :: items) = run? (r.enter .year year) left items :=
    run?_digits r (by decide) (by decide) hyear
  simp only [internet, List.append_assoc, List.cons_append]
  rw [hfirst, run?_mark, run?_field _ hmonth, run?_mark, run?_field _ hday, run?_oneOf _ hseparator,
    run?_field _ hhour, run?_mark, run?_field _ hminute, run?_mark, run?_field _ hsecond]
  rfl

/-- The internet format has no sign before the year. -/
theorem run?_internet_sign {c : Char} (h : c.isDigit = false) (rest : List Char) :
    run? r (c :: rest) internet = none := by
  have hyear : Item.read? r (c :: rest) (.digits .year 4 4) = none := by
    rw [Item.read?, Item.number?_eq_none (by decide) (stops_cons h rest)]
    rfl
  rw [internet, run?, hyear]

end Layout

end Crossover
