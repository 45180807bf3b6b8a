/-
Crossover.Proofs.Summary.Formats — both formats of a summary carry one table.

A row has nine cells: counts, labels and scores (`SummaryRow.cells`). Both formats write a row cell by cell in the
same order, so that it is enough to compare what they make of one cell (`Cell.Shown`): the same digits, the same
clock with a space or a letter in it, decimals that are read as the same double. As no cell has a character that
would need quotes, the fields of a line are what stands between its commas (`fields?_summaryCsv`), and they tell the
cells apart as far as clocks do. So two tables have the same text exactly if they are the same as clocks show them
(`summaryCsv_eq_iff`).

  §1 Cells  — a field of the one format and a value of the other.
  §2 Quotes — what a field is made of.
  §3 Texts  — lines and objects, read from the texts as a whole.
  §4 Tables — the rows of a list of choices in both formats.
-/
import Crossover.Proofs.Json.Pretty
import Crossover.Proofs.Label.RoundTrip
import Crossover.Proofs.Numeric.RoundTrip
import Crossover.Proofs.Summary.Chronology
import Crossover.Proofs.Guarded.Outcome

namespace Crossover

open Numeric Text

/-! ## §1 Cells -/

/-- One cell of a summary. -/
inductive Cell where
  | count (n : Nat)
  | label (k : Label)
  | score (x : Float)

namespace Cell

def chars : Cell → List Char
  | count n => Digits.ofNat n
  | label k => k.text.toList
  | score x => (SummaryRow.scoreText x).toList

def toJson : Cell → Json
  | count n => .ofNat n
  | label k => k.toJson
  | score x => .ofFloat x

/-- One digit or more that stand for a number. -/
def Says (n : Nat) (digits : List Char) : Prop :=
  digits ≠ [] ∧ (∀ c ∈ digits, c.isDigit = true) ∧ Digits.value digits = n

/-- A field and a value show the same cell. Numbers have the same digits. A time has the same date and the same
clock, with a space between them or a letter, and is read from both as clocks show it. A finite score is read from
both as the same double, bit for bit; one that is not finite has its name, and no value. -/
inductive Shown : Cell → List Char → Json → Prop where
  | count {n : Nat} {digits : List Char} (h : Says n digits) :
    Shown (.count n) digits (.number (String.ofList digits))
  | position {n : Nat} {digits : List Char} (h : Says n digits) :
    Shown (.label (.position n)) digits (.number (String.ofList digits))
  | time {t : Instant} {date clock : List Char}
    (hfield : Instant.read? (String.ofList (date ++ ' ' :: clock)) = some t.asShown)
    (hvalue : Instant.readData? (String.ofList (date ++ 'T' :: clock)) = some t.asShown) :
    Shown (.label (.time t)) (date ++ ' ' :: clock) (.string (String.ofList (date ++ 'T' :: clock)))
  | score {x : Float} {decimal literal : List Char} {m n : Numeral} (hx : x.isFinite = true)
    (hfield : Numeral.read? decimal = some m) (hm : m.toFloat = x)
    (hvalue : Numeral.read? literal = some n) (hn : n.toFloat = x) :
    Shown (.score x) decimal (.number (String.ofList literal))
  | special {x : Float} (hx : x.isFinite = false) : Shown (.score x) (specialName x) .null

theorem says_ofNat (n : Nat) : Says n (Digits.ofNat n) :=
  ⟨Digits.ofNat_ne_nil n, Digits.isDigit_of_mem_ofNat n, Digits.value_ofNat n⟩

/-- Every cell is shown by its field and its value. -/
theorem shown (cell : Cell) : cell.Shown cell.chars cell.toJson := by
  cases cell with
  | count n => exact .count (says_ofNat n)
  | label k =>
    cases k with
    | position n =>
      rw [chars, Label.text, Digits.text, String.toList_ofList]
      exact .position (says_ofNat n)
    | time t =>
      rw [chars, Label.text, Instant.text, String.toList_ofList]
      exact .time t.read?_text t.readData?_isoText
  | score x =>
    rw [chars, SummaryRow.scoreText, String.toList_ofList, toJson, Json.ofFloat]
    cases hx : x.isFinite with
    | true =>
      obtain ⟨m, hfield, hm⟩ := SummaryRow.numerals.read?_write hx
      obtain ⟨n, hvalue, hn⟩ := Json.numerals.read?_write hx
      exact .score hx hfield hm hvalue hn
    | false => exact .special hx

/-- The value of a cell is read back from its text on many lines. -/
theorem laid_toJson (cell : Cell) : cell.toJson.Laid := by
  cases cell with
  | count n => exact Json.laid_ofNat n
  | label k =>
    cases k with
    | position n => exact Json.laid_ofNat n
    | time t => exact Json.laid_string t.isoText
  | score x =>
    rw [toJson, Json.ofFloat]
    cases hx : x.isFinite with
    | true =>
      have hnumber := fun rest (hrest : Json.Ends rest) => Json.numerals.number?_write hx hrest
      obtain ⟨c, rest, hchars, hc⟩ := Json.numerals.write_eq_cons hx
      rw [if_pos rfl]
      rw [hchars] at hnumber ⊢
      exact Json.laid_number hc hnumber
    | false => exact Json.laid_null

/-! ## §2 Quotes -/

/-- No comma, no quote and no line break: nothing for which a field would have to stand in quotes. -/
def Unquoted (cs : List Char) : Prop :=
  ∀ c ∈ cs, c ≠ ',' ∧ c ≠ '"' ∧ c ≠ '\n' ∧ c ≠ '\r'

namespace Unquoted

theorem append {front back : List Char} (h : Unquoted front) (k : Unquoted back) : Unquoted (front ++ back) := by
  intro c hc
  rcases List.mem_append.1 hc with hfront | hback
  · exact h c hfront
  · exact k c hback

theorem cons {c : Char} {cs : List Char} (hc : c ≠ ',' ∧ c ≠ '"' ∧ c ≠ '\n' ∧ c ≠ '\r') (h : Unquoted cs) :
    Unquoted (c :: cs) :=
  List.forall_mem_cons.2 ⟨hc, h⟩

theorem of_class {p : Char → Bool} (hp : p ',' = false ∧ p '"' = false ∧ p '\n' = false ∧ p '\r' = false)
    {cs : List Char} (h : ∀ c ∈ cs, p c = true) : Unquoted cs := fun c hc =>
  ⟨ne_of_class (h c hc) hp.1, ne_of_class (h c hc) hp.2.1, ne_of_class (h c hc) hp.2.2.1,
    ne_of_class (h c hc) hp.2.2.2⟩

theorem padded (width n : Nat) : Unquoted (Digits.padded width n) :=
  of_class ⟨rfl, rfl, rfl, rfl⟩ (Digits.isDigit_of_mem_padded width n)

end Unquoted

theorem unquoted_year (year : Int) : Unquoted (Instant.yearChars year) := by
  unfold Instant.yearChars
  dsimp only
  split
  · exact .cons (by decide) (.padded _ _)
  · split
    · exact .cons (by decide) (.padded _ _)
    · exact .padded _ _

theorem unquoted_fraction (nano : Nat) : Unquoted (Instant.fractionChars nano) := by
  unfold Instant.fractionChars
  split
  · simp [Unquoted]
  · split
    · exact .cons (by decide) (.padded _ _)
    · split
      · exact .cons (by decide) (.padded _ _)
      · exact .cons (by decide) (.padded _ _)

theorem unquoted_time (t : Instant) : Unquoted (t.chars ' ') := by
  have hdate : Unquoted (Instant.dateChars t.civil) :=
    ((unquoted_year _).append (.cons (by decide) (.padded _ _))).append (.cons (by decide) (.padded _ _))
  have hclock : Unquoted t.clockChars :=
    (((Unquoted.padded _ _).append (.cons (by decide) (.padded _ _))).append
      (.cons (by decide) (.padded _ _))).append (unquoted_fraction _)
  exact hdate.append (.cons (by decide) hclock)

theorem unquoted_chars (cell : Cell) : Unquoted cell.chars := by
  cases cell with
  | count n => exact .of_class ⟨rfl, rfl, rfl, rfl⟩ (Digits.isDigit_of_mem_ofNat n)
  | label k =>
    cases k with
    | position n =>
      rw [chars, Label.text, Digits.text, String.toList_ofList]
      exact .of_class ⟨rfl, rfl, rfl, rfl⟩ (Digits.isDigit_of_mem_ofNat n)
    | time t =>
      rw [chars, Label.text, Instant.text, String.toList_ofList]
      exact unquoted_time t
  | score x =>
    rw [chars, SummaryRow.scoreText, String.toList_ofList]
    split
    · rename_i hx
      exact .of_class ⟨rfl, rfl, rfl, rfl⟩ (SummaryRow.numerals.isNumeric_of_mem_write hx)
    · unfold specialName
      split
      · simp [Unquoted]
      · split <;> simp [Unquoted]

theorem count_of_chars {m n : Nat} (h : (count m).chars = (count n).chars) : m = n := by
  rw [← Digits.value_ofNat m, ← Digits.value_ofNat n]
  exact congrArg Digits.value h

/-- The field of a label is that of the label as clocks show it. -/
theorem chars_asShown (k : Label) : (label k.asShown).chars = (label k).chars := by
  cases k with
  | position n => rfl
  | time t => simp only [chars, Label.asShown, Label.text, Instant.text, t.chars_asShown]

/-- A position has no hyphen in its text, and every time has. -/
theorem label_of_chars {j k : Label} (h : (label j).chars = (label k).chars) : j.asShown = k.asShown := by
  have hhyphen : ∀ (n : Nat) (t : Instant), (Digits.text n).toList ≠ t.text.toList := by
    intro n t hsame
    have hmem : '-' ∈ Digits.ofNat n := by
      rw [Digits.text, Instant.text, String.toList_ofList, String.toList_ofList] at hsame
      rw [hsame]
      simp [Instant.chars, Instant.dateChars]
    exact absurd (Digits.isDigit_of_mem_ofNat n _ hmem) (by decide)
  cases j with
  | position m =>
    cases k with
    | position n =>
      simp only [chars, Label.text, Digits.text, String.toList_ofList] at h
      rw [count_of_chars h]
    | time t => exact absurd h (hhyphen m t)
  | time s =>
    cases k with
    | position n => exact absurd h.symm (hhyphen n s)
    | time t => exact congrArg Label.time (Instant.text_eq_iff.1 (String.toList_injective h))

theorem score_of_chars {x y : Float} (hx : x.isFinite = true) (hy : y.isFinite = true)
    (h : (score x).chars = (score y).chars) : x = y := by
  rw [chars, chars, SummaryRow.scoreText, SummaryRow.scoreText, if_pos hx, if_pos hy, String.toList_ofList,
    String.toList_ofList] at h
  exact SummaryRow.numerals.write_injective hx hy h

end Cell

/-! ## §3 Texts -/

namespace SummaryRow

/-- The cells of a row, in the order of the columns. -/
def cells (r : SummaryRow) : List Cell :=
  [.count r.window, .label r.trainStart, .label r.trainEnd, .label r.testStart, .label r.testEnd, .count r.fast,
    .count r.slow, .score r.trainScore, .score r.testScore]

theorem toList_csvFields (r : SummaryRow) : r.csvFields.map String.toList = r.cells.map Cell.chars := by
  simp [csvFields, cells, Cell.chars, Digits.text, String.toList_ofList]

theorem toJson_eq (r : SummaryRow) : r.toJson = .object (columnNames.zip (r.cells.map Cell.toJson)) := rfl

end SummaryRow

/-- The fields of a text whose lines all end in a line feed and have no quotes. -/
def fields? (text : String) : Option (List (List (List Char))) :=
  let lines := text.toList.splitOn '\n'
  if lines.getLast? = some [] then some (lines.dropLast.map (·.splitOn ',')) else none

/-- Lines that all end in a line feed are split at it, with nothing behind the last one. -/
theorem splitOn_ended {lines : List (List Char)} (h : ∀ line ∈ lines, '\n' ∉ line) :
    (lines.flatMap fun line => line ++ ['\n']).splitOn '\n' = lines ++ [[]] := by
  induction lines with
  | nil => rfl
  | cons line rest ih =>
    obtain ⟨hline, hrest⟩ := List.forall_mem_cons.1 h
    rw [List.flatMap_cons, List.append_assoc, List.singleton_append,
      List.splitOn_append_cons_self_of_not_mem hline, ih hrest, List.cons_append]

/-- What stands in a line of fields stands in one of them, or is a comma. -/
theorem mem_of_mem_intercalate {c : Char} {fields : List (List Char)} (h : c ∈ [','].intercalate fields) :
    c = ',' ∨ ∃ field ∈ fields, c ∈ field := by
  induction fields with
  | nil => exact absurd h List.not_mem_nil
  | cons field rest ih =>
    cases rest with
    | nil => exact .inr ⟨field, List.mem_cons_self, by rwa [List.intercalate_singleton] at h⟩
    | cons next rest =>
      rw [List.intercalate_cons_cons, List.append_assoc, List.mem_append, List.mem_append,
        List.mem_singleton] at h
      rcases h with hfield | hcomma | hrest
      · exact .inr ⟨field, List.mem_cons_self, hfield⟩
      · exact .inl hcomma
      · exact (ih hrest).imp_right fun ⟨found, hfound, hc⟩ => ⟨found, List.mem_cons_of_mem field hfound, hc⟩

/-- A text of lines is taken apart into its fields, if these need no quotes. -/
theorem fields?_lines {lines : List (List (List Char))} (hne : ∀ fields ∈ lines, fields ≠ [])
    (h : ∀ fields ∈ lines, ∀ field ∈ fields, Cell.Unquoted field) :
    fields? (String.ofList (lines.flatMap fun fields => [','].intercalate fields ++ ['\n'])) = some lines := by
  have hline : ∀ line ∈ lines.map fun fields => [','].intercalate fields, '\n' ∉ line := by
    intro line hmem hfeed
    obtain ⟨fields, hfields, rfl⟩ := List.mem_map.1 hmem
    rcases mem_of_mem_intercalate hfeed with hcomma | ⟨field, hfield, hc⟩
    · exact absurd hcomma (by decide)
    · exact (h fields hfields field hfield '\n' hc).2.2.1 rfl
  have hfields : (lines.map fun fields => [','].intercalate fields).map (·.splitOn ',') = lines := by
    rw [List.map_map, List.map_congr_left (g := id), List.map_id]
    intro fields hfields
    refine List.splitOn_intercalate ',' ?_ (hne fields hfields)
    exact fun field hfield hcomma => (h fields hfields field hfield ',' hcomma).1 rfl
  have hsplit := splitOn_ended hline
  rw [List.flatMap_map] at hsplit
  simp only [fields?, String.toList_ofList, hsplit]
  simp [hfields]

theorem unquoted_columnNames : ∀ field ∈ SummaryRow.columnNames.map String.toList, Cell.Unquoted field := by
  have hlower : ∀ name ∈ SummaryRow.columnNames, name.toList.all (fun c => c.isLower || c == '_') = true := by
    decide
  intro field hfield
  obtain ⟨name, hname, rfl⟩ := List.mem_map.1 hfield
  exact .of_class ⟨rfl, rfl, rfl, rfl⟩ (List.all_eq_true.1 (hlower name hname))

theorem summaryCsv_eq (rows : List SummaryRow) :
    summaryCsv rows = String.ofList ((SummaryRow.columnNames.map String.toList ::
      rows.map fun r => r.cells.map Cell.chars).flatMap fun fields => [','].intercalate fields ++ ['\n']) := by
  simp only [summaryCsv, SummaryRow.csvLine, SummaryRow.toList_csvFields, List.flatMap_cons, List.flatMap_map]

/-- The fields of a table: the names of the columns, and then the cells of each row. -/
theorem fields?_summaryCsv (rows : List SummaryRow) :
    fields? (summaryCsv rows) =
      some (SummaryRow.columnNames.map String.toList :: rows.map fun r => r.cells.map Cell.chars) := by
  rw [summaryCsv_eq]
  refine fields?_lines (List.forall_mem_cons.2 ⟨by decide, fun fields hrow => ?_⟩)
    (List.forall_mem_cons.2 ⟨unquoted_columnNames, fun fields hrow field hfield => ?_⟩)
  · obtain ⟨r, -, rfl⟩ := List.mem_map.1 hrow
    simp [SummaryRow.cells]
  · obtain ⟨r, -, rfl⟩ := List.mem_map.1 hrow
    obtain ⟨cell, -, rfl⟩ := List.mem_map.1 hfield
    exact cell.unquoted_chars

/-- The objects of a table: for each row the names of the columns with the values of its cells. -/
theorem read?_summaryJson (rows : List SummaryRow) :
    Json.read? (summaryJson rows) =
      some (.array (rows.map fun r => .object (SummaryRow.columnNames.zip (r.cells.map Cell.toJson)))) := by
  refine Json.Laid.read?_pretty (Json.laid_array fun v hv => ?_)
  obtain ⟨r, -, rfl⟩ := List.mem_map.1 hv
  rw [r.toJson_eq]
  refine Json.laid_object fun m hm => ?_
  obtain ⟨cell, -, hcell⟩ := List.mem_map.1 (List.of_mem_zip hm).2
  rw [← hcell]
  exact cell.laid_toJson

/-! ## §4 Tables -/

/-- A line of fields and an object show the cells of a row: nine fields that need no quotes, and under the names of
the columns as many values, each of which shows the same cell as the field in its place. -/
structure SummaryRow.Shown (r : SummaryRow) (fields : List (List Char)) (members : List (String × Json)) : Prop where
  nine : fields.length = 9
  unquoted : ∀ field ∈ fields, Cell.Unquoted field
  names : members.map Prod.fst = columnNames
  cells : List.Forall₂ (fun cell (shown : List Char × Json) => cell.Shown shown.1 shown.2) r.cells
    (fields.zip (members.map Prod.snd))

theorem SummaryRow.shown (r : SummaryRow) :
    r.Shown (r.cells.map Cell.chars) (columnNames.zip (r.cells.map Cell.toJson)) := by
  constructor
  case nine => rfl
  case unquoted =>
    intro field hfield
    obtain ⟨cell, -, rfl⟩ := List.mem_map.1 hfield
    exact cell.unquoted_chars
  case names => rfl
  case cells =>
    rw [List.map_snd_zip (by simp [SummaryRow.cells, columnNames]), List.zip_map', List.forall₂_map_right_iff,
      List.forall₂_same]
    exact fun cell _ => cell.shown

/-- Both texts of a table are there and carry the same rows. The one has a line with the names of the columns and
then one line for each row, all of them ended by a line feed; the other is an array with one object for each row. -/
structure SameTable (rows : List SummaryRow) (lines : List (List (List Char)))
    (objects : List (List (String × Json))) : Prop where
  csv : fields? (summaryCsv rows) = some (SummaryRow.columnNames.map String.toList :: lines)
  json : Json.read? (summaryJson rows) = some (.array (objects.map Json.object))
  shown : List.Forall₂ (fun r (shown : List (List Char) × List (String × Json)) => r.Shown shown.1 shown.2) rows
    (lines.zip objects)
  oneLineEach : lines.length = rows.length
  oneObjectEach : objects.length = rows.length

theorem sameTable (rows : List SummaryRow) :
    SameTable rows (rows.map fun r => r.cells.map Cell.chars)
      (rows.map fun r => SummaryRow.columnNames.zip (r.cells.map Cell.toJson)) := by
  constructor
  case csv => exact fields?_summaryCsv rows
  case json =>
    rw [read?_summaryJson, List.map_map]
    rfl
  case shown =>
    rw [List.zip_map', List.forall₂_map_right_iff, List.forall₂_same]
    exact fun r _ => r.shown
  case oneLineEach => exact List.length_map _
  case oneObjectEach => exact List.length_map _

/-- Both stretches of a choice lie within the series. -/
structure Choice.Within (series : Series) (c : Choice) : Prop where
  trainStart : c.split.trainStart < series.size
  trainStop : 1 ≤ c.split.trainStop ∧ c.split.trainStop ≤ series.size
  testStart : c.split.testStart < series.size
  testStop : 1 ≤ c.split.testStop ∧ c.split.testStop ≤ series.size

/-- A choice within the series has a row. -/
theorem Choice.Within.exists_row {series : Series} {c : Choice} (h : c.Within series) :
    ∃ r, SummaryRow.of? series c = some r := by
  obtain ⟨trainStart, htrainStart⟩ := series.exists_label h.trainStart
  obtain ⟨trainEnd, htrainEnd⟩ := series.exists_labelBefore h.trainStop.1 h.trainStop.2
  obtain ⟨testStart, htestStart⟩ := series.exists_label h.testStart
  obtain ⟨testEnd, htestEnd⟩ := series.exists_labelBefore h.testStop.1 h.testStop.2
  rw [SummaryRow.of?, htrainStart, htrainEnd, htestStart, htestEnd]
  exact ⟨_, rfl⟩

/-- Both scores of a row are finite. -/
def SummaryRow.Finite (r : SummaryRow) : Prop :=
  r.trainScore.isFinite = true ∧ r.testScore.isFinite = true

instance (r : SummaryRow) : Decidable r.Finite :=
  inferInstanceAs (Decidable (_ ∧ _))

/-- All labels of a row are regular. -/
structure SummaryRow.Regular (r : SummaryRow) : Prop where
  trainStart : r.trainStart.Regular
  trainEnd : r.trainEnd.Regular
  testStart : r.testStart.Regular
  testEnd : r.testEnd.Regular

/-- The row as clocks show its labels. -/
def SummaryRow.asShown (r : SummaryRow) : SummaryRow where
  window := r.window
  trainStart := r.trainStart.asShown
  trainEnd := r.trainEnd.asShown
  testStart := r.testStart.asShown
  testEnd := r.testEnd.asShown
  fast := r.fast
  slow := r.slow
  trainScore := r.trainScore
  testScore := r.testScore

namespace SummaryRow

theorem asShown_of_regular {r : SummaryRow} (h : r.Regular) : r.asShown = r := by
  rw [asShown, Label.asShown_eq_self_iff.2 h.trainStart, Label.asShown_eq_self_iff.2 h.trainEnd,
    Label.asShown_eq_self_iff.2 h.testStart, Label.asShown_eq_self_iff.2 h.testEnd]

/-- The fields of a row are those of the row as clocks show its labels. -/
theorem chars_asShown (r : SummaryRow) : r.asShown.cells.map Cell.chars = r.cells.map Cell.chars := by
  simp only [cells, asShown, List.map_cons, List.map_nil, Cell.chars_asShown]

/-- The fields of a row tell it apart from other rows as far as clocks do, if its scores are finite. -/
theorem asShown_of_chars {r s : SummaryRow} (hr : r.Finite) (hs : s.Finite)
    (h : r.cells.map Cell.chars = s.cells.map Cell.chars) : r.asShown = s.asShown := by
  simp only [cells, List.map_cons, List.map_nil, List.cons.injEq, and_true] at h
  obtain ⟨hwindow, htrainStart, htrainEnd, htestStart, htestEnd, hfast, hslow, htrainScore, htestScore⟩ := h
  rw [asShown, asShown, Cell.count_of_chars hwindow, Cell.label_of_chars htrainStart, Cell.label_of_chars htrainEnd,
    Cell.label_of_chars htestStart, Cell.label_of_chars htestEnd, Cell.count_of_chars hfast,
    Cell.count_of_chars hslow, Cell.score_of_chars hr.1 hs.1 htrainScore, Cell.score_of_chars hr.2 hs.2 htestScore]

end SummaryRow

/-- A table has the text of the table as clocks show its labels. -/
theorem summaryCsv_asShown (rows : List SummaryRow) :
    summaryCsv (rows.map SummaryRow.asShown) = summaryCsv rows := by
  have hlines : (rows.map SummaryRow.asShown).map (fun r => r.cells.map Cell.chars) =
      rows.map fun r => r.cells.map Cell.chars := by
    rw [List.map_map]
    exact List.map_congr_left fun r _ => r.chars_asShown
  rw [summaryCsv_eq, summaryCsv_eq, hlines]

/-- Tables of finite scores have the same text exactly if they are the same as clocks show their labels. -/
theorem summaryCsv_eq_iff {rows others : List SummaryRow} (hrows : ∀ r ∈ rows, r.Finite)
    (hothers : ∀ r ∈ others, r.Finite) :
    summaryCsv rows = summaryCsv others ↔ rows.map SummaryRow.asShown = others.map SummaryRow.asShown := by
  constructor
  · intro h
    have hfields := congrArg fields? h
    rw [fields?_summaryCsv, fields?_summaryCsv] at hfields
    have hlines := (List.cons.inj (Option.some.inj hfields)).2
    clear h hfields
    induction rows generalizing others with
    | nil => rw [List.map_eq_nil_iff.1 hlines.symm]
    | cons r rest ih =>
      cases others with
      | nil => cases hlines
      | cons s others =>
        obtain ⟨hr, hrest⟩ := List.forall_mem_cons.1 hrows
        obtain ⟨hs, hothers⟩ := List.forall_mem_cons.1 hothers
        obtain ⟨hline, hlines⟩ := List.cons.inj hlines
        rw [List.map_cons, List.map_cons, SummaryRow.asShown_of_chars hr hs hline, ih hrest hothers hlines]
  · intro h
    rw [← summaryCsv_asShown rows, ← summaryCsv_asShown others, h]

/-- Different tables of finite scores and regular labels have different texts. -/
theorem eq_of_summaryCsv_eq {rows others : List SummaryRow} (hrows : ∀ r ∈ rows, r.Finite ∧ r.Regular)
    (hothers : ∀ r ∈ others, r.Finite ∧ r.Regular) (h : summaryCsv rows = summaryCsv others) : rows = others := by
  have hshown := (summaryCsv_eq_iff (fun r hr => (hrows r hr).1) fun r hr => (hothers r hr).1).1 h
  rwa [map_eq_self fun r hr => SummaryRow.asShown_of_regular (hrows r hr).2,
    map_eq_self fun r hr => SummaryRow.asShown_of_regular (hothers r hr).2] at hshown

/-- If a series has times, they are regular. -/
def Series.Regular (s : Series) : Prop :=
  ∀ times, s.times = some times → ∀ t ∈ times, t.Regular

theorem Series.Regular.label {s : Series} (h : s.Regular) {position : Nat} {k : Label}
    (hk : s.label? position = some k) : k.Regular := by
  unfold label? at hk
  cases htimes : s.times with
  | none =>
    rw [htimes] at hk
    cases hk
    trivial
  | some times =>
    rw [htimes] at hk
    obtain ⟨t, ht, rfl⟩ := Option.map_eq_some_iff.1 hk
    exact h times htimes t (List.mem_of_getElem? ht)

theorem Series.Regular.labelBefore {s : Series} (h : s.Regular) {position : Nat} {k : Label}
    (hk : s.labelBefore? position = some k) : k.Regular := by
  unfold labelBefore? at hk
  split at hk
  · cases hk
  · exact h.label hk

/-- The rows of a series with regular times have regular labels. -/
theorem SummaryRow.Names.regular {series : Series} {c : Choice} {r : SummaryRow} (h : r.Names series c)
    (hseries : series.Regular) : r.Regular :=
  ⟨hseries.label h.trainStart, hseries.labelBefore h.trainEnd, hseries.label h.testStart,
    hseries.labelBefore h.testEnd⟩

/-- **Both formats of a summary carry one table.** For choices whose stretches lie within a series there is a table
with one row for each, which names its bars. The text of comma-separated values has a line with the names of the
columns and one line for each row, each ended by a line feed; between the commas of a line stand nine fields, none of
which needs quotes. The text of JSON is an array with one object for each row, whose names are those of the columns,
in the same order. Field by field a line and its object show the same cell: the same digits, the same time with a
space or a letter before its clock, decimals of the same double. Two lists of rows with finite scores have the same
text of comma-separated values exactly if they are the same as clocks show their labels. So different ones have
different texts if their labels are regular, as they are for a series of regular times. -/
theorem summaries_carry_same_table :
    (∀ (series : Series) (choices : List Choice), (∀ c ∈ choices, c.Within series) →
      ∃ rows lines objects, summaryRows? series choices = some rows ∧
        List.Forall₂ (SummaryRow.Names series) choices rows ∧ lines.length = choices.length ∧
        SameTable rows lines objects ∧ (series.Regular → ∀ r ∈ rows, r.Regular)) ∧
    (∀ rows others : List SummaryRow, (∀ r ∈ rows, r.Finite) → (∀ r ∈ others, r.Finite) →
      (summaryCsv rows = summaryCsv others ↔ rows.map SummaryRow.asShown = others.map SummaryRow.asShown)) ∧
    ∀ rows others : List SummaryRow, (∀ r ∈ rows, r.Finite ∧ r.Regular) → (∀ r ∈ others, r.Finite ∧ r.Regular) →
      summaryCsv rows = summaryCsv others → rows = others := by
  refine ⟨fun series choices hwithin => ?_, fun rows others => summaryCsv_eq_iff,
    fun rows others => eq_of_summaryCsv_eq⟩
  obtain ⟨rows, hrows⟩ := exists_mapM fun c hc => (hwithin c hc).exists_row
  have hnames := forall₂_of_mapM hrows fun c _ r hr => SummaryRow.names_of_of? hr
  have hsame := sameTable rows
  refine ⟨rows, _, _, hrows, hnames, hsame.oneLineEach.trans hnames.length_eq.symm, hsame, fun hseries => ?_⟩
  have hregular : List.Forall₂ (fun (r : SummaryRow) c => r.Regular ∧ r.Names series c) rows choices :=
    (hnames.imp fun c r hr => ⟨hr.regular hseries, hr⟩).flip
  exact ((List.forall₂_and_left rows choices).1 hregular).1

/-- A window that is tested on one bar, behind a leap second. -/
def leapChoice (testScore : Float) : Choice :=
  ⟨0, ⟨1, 3, 3, 4⟩, ⟨3, 15⟩, 0.1, testScore⟩

/-- A table of one window in both formats, with the time of a leap second in it; and a score that is zero is told
apart from one that is minus zero. -/
theorem summaries_carry_same_table_of_leap :
    (∃ rows lines objects, summaryRows? midyearSeries [leapChoice (-0.0)] = some rows ∧
      summaryCsv rows = "window,train_start,train_end,test_start,test_end,fast,slow,train_score,test_score\n" ++
        "0,2015-06-30 23:59:59,2015-06-30 23:59:60.250,2015-07-01 00:00:00,2015-07-01 00:00:00,3,15,0.1,-0.0\n" ∧
      List.Forall₂ (SummaryRow.Names midyearSeries) [leapChoice (-0.0)] rows ∧ lines.length = 1 ∧
      SameTable rows lines objects ∧ ∀ r ∈ rows, r.Regular) ∧
    ∃ r s, SummaryRow.of? midyearSeries (leapChoice 0.0) = some r ∧
      SummaryRow.of? midyearSeries (leapChoice (-0.0)) = some s ∧ summaryCsv [r] ≠ summaryCsv [s] := by
  have hwithin : ∀ c ∈ [leapChoice (-0.0)], c.Within midyearSeries := by
    intro c hc
    rw [List.mem_singleton.1 hc]
    exact ⟨by decide, by decide, by decide, by decide⟩
  have hseries : midyearSeries.Regular := by
    intro times htimes
    cases htimes
    decide
  constructor
  · obtain ⟨rows, lines, objects, hrows, hnames, hlines, hsame, hregular⟩ :=
      summaries_carry_same_table.1 midyearSeries [leapChoice (-0.0)] hwithin
    refine ⟨rows, lines, objects, hrows, ?_, hnames, hlines, hsame, hregular hseries⟩
    cases hrows
    decide +kernel
  · have hrow : ∀ x : Float, x.isFinite = true → ∃ r, SummaryRow.of? midyearSeries (leapChoice x) = some r ∧
        r.testScore = x ∧ ∀ s ∈ [r], s.Finite ∧ s.Regular := by
      intro x hx
      obtain ⟨r, hr⟩ : ∃ r, SummaryRow.of? midyearSeries (leapChoice x) = some r := ⟨_, rfl⟩
      have hnames := SummaryRow.names_of_of? hr
      have htenth : (leapChoice 0.0).trainScore.isFinite = true := by decide
      refine ⟨r, hr, hnames.testScore.symm, fun s hs => ?_⟩
      rw [List.mem_singleton.1 hs]
      exact ⟨⟨hnames.trainScore ▸ htenth, hnames.testScore ▸ hx⟩, hnames.regular hseries⟩
    obtain ⟨r, hr, hzero, hrsound⟩ := hrow 0.0 (by decide)
    obtain ⟨s, hs, hminus, hssound⟩ := hrow (-0.0) (by decide)
    refine ⟨r, s, hr, hs, fun hsame => ?_⟩
    have hrows := summaries_carry_same_table.2.2 [r] [s] hrsound hssound hsame
    have hscore : (0.0 : Float) = -0.0 :=
      hzero.symm.trans ((congrArg SummaryRow.testScore (List.singleton_inj.1 hrows)).trans hminus)
    exact absurd (congrArg Numeric.isNegative hscore) (by decide)

/-- 20:19:26 on the last of June 2015. -/
def testedBar : Label :=
  .time ((Instant.of? 1435695566 0).get rfl)

/-- A window that is trained on one bar and tested on the next. -/
def twoBarRow (trained : Instant) : SummaryRow :=
  ⟨0, .time trained, .time trained, testedBar, testedBar, 1, 2, 0.5, 0.25⟩

/-- A leap second that does not end a minute and a time of the next second have one text, so that the text of a row
of finite scores does not tell between them. -/
theorem summary_rows_lost_within_minute :
    (∀ r ∈ [twoBarRow Instant.strayLeap], r.Finite) ∧ (∀ r ∈ [twoBarRow Instant.strayLeap.asShown], r.Finite) ∧
    [twoBarRow Instant.strayLeap] ≠ [twoBarRow Instant.strayLeap.asShown] ∧
    summaryCsv [twoBarRow Instant.strayLeap] = summaryCsv [twoBarRow Instant.strayLeap.asShown] := by
  have hfinite : ∀ t, ∀ r ∈ [twoBarRow t], r.Finite := by
    intro t r hr
    have hscores : (0.5 : Float).isFinite = true ∧ (0.25 : Float).isFinite = true := by decide
    rw [List.mem_singleton.1 hr]
    exact hscores
  refine ⟨hfinite _, hfinite _, fun hsame => ?_, ?_⟩
  · have htrained := congrArg SummaryRow.trainStart (List.singleton_inj.1 hsame)
    exact absurd (Label.time.inj htrained) (by decide)
  · have hshown := Instant.asShown_of_regular Instant.strayLeap.regular_asShown
    rw [summaryCsv_eq_iff (hfinite _) (hfinite _)]
    simp only [List.map_cons, List.map_nil, SummaryRow.asShown, twoBarRow, Label.asShown, hshown]

end Crossover
