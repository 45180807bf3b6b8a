/-
Crossover.Proofs.Calendar.Agreement — layouts of bars that fit the same text agree on it.

Every layout of bars begins with a date, and the date of the internet format is a loose one (`Layout.Narrows`).
What stands behind the date decides which clock can follow it: nothing, the letter `T`, or white space or a digit
(`Layout.clockAfter`). Of a clock there is one with a fraction, which may be missing, and only the internet format
has an offset behind it. So a text says at most one thing (`Layout.Says.unique`), every layout that covers it makes
that of it, and the order in which layouts are tried does not matter.

  §1 Runs                — what a layout does that accepts a text.
  §2 Narrower layouts    — numbers at their full width are loose ones.
  §3 What follows a date — the clock, and what a text says.
  §4 Orders              — layouts tried one after the other.
-/
import Crossover.Proofs.Calendar.Reading

namespace Crossover

open Text Digits

/-! ## §1 Runs -/

namespace Item

variable {least most : Nat} {cs : List Char} {next : Nat × List Char}

/-- A number starts with a digit. -/
theorem exists_digit_of_number? (h : number? least most cs = some next) (hleast : 0 < least) :
    ∃ c rest, cs = c :: rest ∧ c.isDigit = true := by
  have hstops : ¬ Stops cs := by
    intro hstops
    rw [number?_eq_none hleast hstops] at h
    cases h
  cases cs with
  | nil => exact absurd stops_nil hstops
  | cons c rest =>
    refine ⟨c, rest, rfl, ?_⟩
    cases hdigit : c.isDigit with
    | true => rfl
    | false => exact absurd (stops_cons hdigit rest) hstops

/-- A number is read in the same way where fewer digits would do. -/
theorem number?_of_le {fewer : Nat} (h : number? least most cs = some next) (hle : fewer ≤ least) :
    number? fewer most cs = some next := by
  simp only [number?, ite_eq_iff, reduceCtorEq, and_false, false_or] at h ⊢
  exact ⟨fun hshort => h.1 (hshort.trans_le hle), h.2⟩

end Item

namespace Layout

variable {r : Reading} {cs : List Char} {next : Reading × List Char}

theorem run?_append_eq_some_iff {a b : Layout} :
    run? r cs (a ++ b) = some next ↔
      ∃ m rest, run? r cs a = some (m, rest) ∧ run? m rest b = some next := by
  induction a generalizing r cs with
  | nil => simp [run?]
  | cons item items ih =>
    cases hitem : item.read? r cs with
    | none => simp [run?, hitem]
    | some found => simp [run?, hitem, ih]

theorem run?_cons_eq_some_iff {item : Item} {items : Layout} :
    run? r cs (item :: items) = some next ↔
      ∃ m rest, item.read? r cs = some (m, rest) ∧ run? m rest items = some next := by
  cases hitem : item.read? r cs with
  | none => simp [run?, hitem]
  | some found =>
    obtain ⟨m, rest⟩ := found
    simp [run?, hitem]

/-- Where a layout reads a number first, a digit stands first. -/
theorem exists_of_run?_digits {part : Part} {least most : Nat} {items : Layout} (hleast : 0 < least)
    (h : run? r cs (.digits part least most :: items) = some next) :
    ∃ n rest, Item.number? least most cs = some (n, rest) ∧ run? (r.enter part n) rest items = some next ∧
      ∃ c more, cs = c :: more ∧ c.isDigit = true := by
  obtain ⟨m, rest, hread, hrun⟩ := run?_cons_eq_some_iff.1 h
  obtain ⟨found, hnumber, hfound⟩ := Option.map_eq_some_iff.1 hread
  cases hfound
  exact ⟨_, _, hnumber, hrun, Item.exists_digit_of_number? hnumber hleast⟩

theorem exists_of_run?_oneOf {marks : List Char} {items : Layout}
    (h : run? r cs (.oneOf marks :: items) = some next) :
    ∃ c ∈ marks, ∃ rest, cs = c :: rest ∧ run? r rest items = some next := by
  obtain ⟨m, rest, hread, hrun⟩ := run?_cons_eq_some_iff.1 h
  cases cs with
  | nil => cases hread
  | cons c more =>
    rw [Item.read?] at hread
    split at hread
    · rename_i hmark
      cases hread
      exact ⟨c, List.contains_iff_mem.1 hmark, _, rfl, hrun⟩
    · cases hread

/-- A layout covers a text as a whole and makes a reading of it. -/
def Covers (layout : Layout) (cs : List Char) (r : Reading) : Prop :=
  run? {} cs layout = some (r, [])

theorem instant?_eq_some_iff {layout : Layout} {t : Instant} :
    layout.instant? cs = some t ↔ ∃ r, layout.Covers cs r ∧ r.instant? = some t := by
  unfold instant? Covers
  constructor
  · intro h
    split at h
    · rename_i r hrun
      exact ⟨r, hrun, h⟩
    · cases h
  · rintro ⟨r, hrun, h⟩
    rw [hrun]
    exact h

/-! ## §2 Narrower layouts -/

/-- What the first of two layouts reads, the second reads in the same way. -/
def Narrows (a b : Layout) : Prop :=
  ∀ r cs next, run? r cs a = some next → run? r cs b = some next

namespace Narrows

theorem refl (a : Layout) : Narrows a a :=
  fun _ _ _ h => h

theorem append {a b c d : Layout} (hfirst : Narrows a b) (hsecond : Narrows c d) :
    Narrows (a ++ c) (b ++ d) := by
  intro r cs next h
  obtain ⟨m, rest, hrun, hnext⟩ := run?_append_eq_some_iff.1 h
  exact run?_append_eq_some_iff.2 ⟨m, rest, hfirst r cs _ hrun, hsecond m rest _ hnext⟩

/-- A field at its full width is a loose one. -/
theorem loose (part : Part) : Narrows [.digits part 2 2] (loose part) := by
  intro r cs next h
  obtain ⟨n, rest, hnumber, hrun, c, more, rfl, hdigit⟩ := exists_of_run?_digits (by decide) h
  rw [Layout.loose, run?_gap r (isBlank_of_isDigit hdigit)]
  refine run?_cons_eq_some_iff.2 ⟨_, _, ?_, hrun⟩
  rw [Item.read?, Item.number?_of_le hnumber (by decide)]
  rfl

/-- Four digits are a year of those that may have a sign. -/
theorem year : Narrows [.digits .year 4 4] [.gap, .signedYear] := by
  intro r cs next h
  obtain ⟨n, rest, hnumber, hrun, c, more, rfl, hdigit⟩ := exists_of_run?_digits (by decide) h
  rw [run?_gap r (isBlank_of_isDigit hdigit)]
  refine run?_cons_eq_some_iff.2 ⟨_, _, ?_, hrun⟩
  rw [Item.read?_signedYear_digit r hdigit, Item.number?_of_le hnumber (by decide)]
  rfl

end Narrows

/-- The date of the internet format. -/
def internetDate : Layout :=
  [.digits .year 4 4, mark '-', .digits .month 2 2, mark '-', .digits .day 2 2]

/-- The clock of the internet format, without a fraction. -/
def internetClock : Layout :=
  [.digits .hour 2 2, mark ':', .digits .minute 2 2, mark ':', .digits .second 2 2]

theorem narrows_date : Narrows internetDate looseDate :=
  .append .year <| .append (.refl [mark '-']) <| .append (.loose .month) <| .append (.refl [mark '-']) <|
    .loose .day

theorem narrows_clock : Narrows internetClock looseClock :=
  .append (.loose .hour) <| .append (.refl [mark ':']) <| .append (.loose .minute) <|
    .append (.refl [mark ':']) <| .loose .second

/-! ## §3 What follows a date -/

/-- A clock with white space before it. -/
def spacedClock : Layout :=
  .gap :: looseClock

/-- A clock with the letter `T` before it. -/
def letteredClock : Layout :=
  mark 'T' :: looseClock

/-- What may follow a date without an offset, the date alone last. -/
def clocks : List Layout :=
  [spacedClock ++ [.fraction], spacedClock, letteredClock ++ [.fraction], letteredClock, []]

theorem bars_eq : bars = internet :: clocks.map (looseDate ++ ·) := rfl

/-- The clock that goes with what follows a date. -/
def clockAfter : List Char → Layout
  | [] => []
  | c :: _ => if c = 'T' then letteredClock ++ [.fraction] else spacedClock ++ [.fraction]

/-- A clock without a letter starts with white space or with a digit. -/
theorem exists_of_run?_spacedClock {items : Layout} (h : run? r cs (spacedClock ++ items) = some next) :
    ∃ c rest, cs = c :: rest ∧ (isBlank c = true ∨ c.isDigit = true) := by
  cases cs with
  | nil => cases h
  | cons c rest =>
    refine ⟨c, rest, rfl, ?_⟩
    by_contra hneither
    simp only [not_or, Bool.not_eq_true] at hneither
    rw [spacedClock, List.cons_append, run?_gap r hneither.1, looseClock, loose] at h
    simp only [List.cons_append] at h
    rw [run?_gap r hneither.1] at h
    obtain ⟨_, _, -, -, d, more, hcons, hdigit⟩ := exists_of_run?_digits (by decide) h
    cases hcons
    exact absurd hdigit (by simp [hneither.2])

/-- A fraction may be missing at the end of a text. -/
theorem run?_fraction_of_covers {clock : Layout} {s : Reading} (h : run? r cs clock = some (s, [])) :
    run? r cs (clock ++ [.fraction]) = some (s, []) :=
  run?_append_eq_some_iff.2 ⟨s, [], h, rfl⟩

theorem run?_clockAfter_spaced {s : Reading} (h : run? r cs (spacedClock ++ [.fraction]) = some (s, [])) :
    run? r cs (clockAfter cs) = some (s, []) := by
  obtain ⟨c, rest, rfl, hhead⟩ := exists_of_run?_spacedClock h
  have hletter : c ≠ 'T' := by
    rintro rfl
    exact absurd hhead (by decide)
  rw [clockAfter, if_neg hletter]
  exact h

theorem run?_clockAfter_lettered {s : Reading} (h : run? r cs (letteredClock ++ [.fraction]) = some (s, [])) :
    run? r cs (clockAfter cs) = some (s, []) := by
  obtain ⟨c, hc, rest, rfl, -⟩ := exists_of_run?_oneOf h
  rw [clockAfter, if_pos (List.mem_singleton.1 hc)]
  exact h

/-- Of what may follow a date, what follows it decides which clock it is. -/
theorem run?_clockAfter {clock : Layout} (hclock : clock ∈ clocks) {s : Reading}
    (h : run? r cs clock = some (s, [])) : run? r cs (clockAfter cs) = some (s, []) := by
  simp only [clocks, List.mem_cons, List.not_mem_nil, or_false] at hclock
  rcases hclock with rfl | rfl | rfl | rfl | rfl
  · exact run?_clockAfter_spaced h
  · exact run?_clockAfter_spaced (run?_fraction_of_covers h)
  · exact run?_clockAfter_lettered h
  · exact run?_clockAfter_lettered (run?_fraction_of_covers h)
  · cases h
    rfl

/-- The clock of the internet format is the one that goes with its text, up to the fraction. -/
theorem run?_clockAfter_internet {separator : Char} (hseparator : separator ∈ ['T', 't', ' ']) {m : Reading}
    {left : List Char} (hclock : run? r cs internetClock = some (m, left))
    (h : run? r (separator :: cs) (clockAfter (separator :: cs)) = some next) :
    run? m left [.fraction] = some next := by
  have hloose := narrows_clock r cs _ hclock
  have hrest : ∀ {items : Layout}, run? r cs (looseClock ++ items) = some next → run? m left items = some next := by
    intro items h
    obtain ⟨m', left', hclock', hrun⟩ := run?_append_eq_some_iff.1 h
    rw [hloose] at hclock'
    cases hclock'
    exact hrun
  simp only [List.mem_cons, List.not_mem_nil, or_false] at hseparator
  rcases hseparator with rfl | rfl | rfl
  · rw [clockAfter, if_pos rfl, letteredClock, List.cons_append, run?_mark] at h
    exact hrest h
  · obtain ⟨c, rest, hhead, hneither⟩ := exists_of_run?_spacedClock h
    cases hhead
    exact absurd hneither (by decide)
  · obtain ⟨_, _, -, -, c, more, rfl, hdigit⟩ := exists_of_run?_digits (by decide) hclock
    rw [clockAfter, if_neg (by decide), spacedClock, List.cons_append,
      run?_space r (isBlank_of_isDigit hdigit)] at h
    exact hrest h

/-- What a text says: it is in the internet format, or a date with the clock that goes with it. -/
inductive Says (cs : List Char) (r : Reading) : Prop
  | zoned (h : internet.Covers cs r)
  | unzoned {d : Reading} {rest : List Char} (hdate : run? {} cs looseDate = some (d, rest))
      (hclock : run? d rest (clockAfter rest) = some (r, []))

/-- A text in the internet format is no date with a clock: it ends in an offset. -/
theorem not_unzoned_of_zoned {s : Reading} (h : internet.Covers cs r) {d : Reading} {rest : List Char}
    (hdate : run? {} cs looseDate = some (d, rest)) : run? d rest (clockAfter rest) ≠ some (s, []) := by
  intro hclock
  have hcut : internet = internetDate ++ .oneOf ['T', 't', ' '] :: (internetClock ++ [.fraction, .zone]) := rfl
  rw [Covers, hcut] at h
  obtain ⟨d', rest', hdate', hafter⟩ := run?_append_eq_some_iff.1 h
  rw [narrows_date _ _ _ hdate'] at hdate
  cases hdate
  obtain ⟨separator, hseparator, more, rfl, hrun⟩ := exists_of_run?_oneOf hafter
  obtain ⟨m, left, hinternet, hend⟩ := run?_append_eq_some_iff.1 hrun
  have hfraction := run?_clockAfter_internet hseparator hinternet hclock
  have hlast : [Item.fraction, .zone] = [.fraction] ++ [.zone] := rfl
  rw [hlast] at hend
  obtain ⟨f, y, hfraction', hzone⟩ := run?_append_eq_some_iff.1 hend
  rw [hfraction] at hfraction'
  cases hfraction'
  cases hzone

theorem Says.unique {s : Reading} (hr : Says cs r) (hs : Says cs s) : r = s := by
  cases hr with
  | zoned hr =>
    cases hs with
    | zoned hs =>
      rw [Covers] at hr hs
      rw [hr] at hs
      cases hs
      rfl
    | unzoned hdate hclock => exact absurd hclock (not_unzoned_of_zoned hr hdate)
  | unzoned hdate hclock =>
    cases hs with
    | zoned hs => exact absurd hclock (not_unzoned_of_zoned hs hdate)
    | unzoned hdate' hclock' =>
      rw [hdate] at hdate'
      cases hdate'
      rw [hclock] at hclock'
      cases hclock'
      rfl

/-- What a layout makes of a text is what the text says. -/
theorem says_of_covers {layout : Layout} (hlayout : layout ∈ bars) (h : layout.Covers cs r) : Says cs r := by
  rw [bars_eq, List.mem_cons, List.mem_map] at hlayout
  rcases hlayout with rfl | ⟨clock, hclock, rfl⟩
  · exact .zoned h
  · obtain ⟨d, rest, hdate, hrun⟩ := run?_append_eq_some_iff.1 h
    exact .unzoned hdate (run?_clockAfter hclock hrun)

/-! ## §4 Orders -/

/-- The layouts of bars that do without a fraction only where others do. -/
def needed : List Layout :=
  [internet, spaced ++ [.fraction], lettered ++ [.fraction], looseDate]

/-- What a text says, one of the layouts that are needed makes of it. -/
theorem exists_covers_of_says (h : Says cs r) : ∃ layout ∈ needed, layout.Covers cs r := by
  cases h with
  | zoned h => exact ⟨internet, by decide, h⟩
  | @unzoned d rest hdate hclock =>
    have hwhole : (looseDate ++ clockAfter rest).Covers cs r := run?_append_eq_some_iff.2 ⟨d, rest, hdate, hclock⟩
    refine ⟨_, ?_, hwhole⟩
    unfold clockAfter
    split
    · decide
    · split <;> decide

/-- In whichever order layouts are tried, the first that fits says what the text says. -/
theorem findSome?_eq_some_iff {layouts : List Layout} (hbars : layouts ⊆ bars) (hneeded : needed ⊆ layouts)
    {t : Instant} :
    layouts.findSome? (Layout.instant? · cs) = some t ↔ ∃ r, Says cs r ∧ r.instant? = some t := by
  have hsound : ∀ t, layouts.findSome? (Layout.instant? · cs) = some t → ∃ r, Says cs r ∧ r.instant? = some t := by
    intro t h
    obtain ⟨layout, hlayout, hinstant⟩ := List.exists_of_findSome?_eq_some h
    obtain ⟨r, hcovers, hr⟩ := instant?_eq_some_iff.1 hinstant
    exact ⟨r, says_of_covers (hbars hlayout) hcovers, hr⟩
  refine ⟨hsound t, ?_⟩
  rintro ⟨r, hsays, hr⟩
  obtain ⟨layout, hlayout, hcovers⟩ := exists_covers_of_says hsays
  have hinstant : layout.instant? cs = some t := instant?_eq_some_iff.2 ⟨r, hcovers, hr⟩
  have hsome : (layouts.findSome? (Layout.instant? · cs)).isSome = true :=
    List.findSome?_isSome_iff.2 ⟨layout, hneeded hlayout, by rw [hinstant]; rfl⟩
  obtain ⟨u, hu⟩ := Option.isSome_iff_exists.1 hsome
  obtain ⟨s, hsays', hs⟩ := hsound u hu
  cases hsays.unique hsays'
  rw [hu, ← hs, hr]

end Layout

open Layout in
/-- **Layouts of bars never contradict each other.** Two layouts that both accept a text read the same instant
in it, so that the answer for a text, none included, is the same in whichever order the six layouts are tried,
and also without the two that have no fraction. -/
theorem layouts_agree :
    (∀ cs : List Char, ∀ a ∈ bars, ∀ b ∈ bars, ∀ s t : Instant,
        a.instant? cs = some s → b.instant? cs = some t → s = t) ∧
      (∀ (text : String) (layouts : List Layout), layouts.Perm bars →
        layouts.findSome? (Layout.instant? · (trim text.toList)) = Instant.read? text) ∧
      ∀ (text : String) (layouts : List Layout), layouts.Perm needed →
        layouts.findSome? (Layout.instant? · (trim text.toList)) = Instant.read? text := by
  have hneeded : needed ⊆ bars := by decide
  have hanswer : ∀ (text : String) (layouts : List Layout), layouts ⊆ bars → needed ⊆ layouts →
      layouts.findSome? (Layout.instant? · (trim text.toList)) = Instant.read? text := by
    intro text layouts hbars hall
    refine Option.ext fun t => ?_
    rw [Instant.read?, findSome?_eq_some_iff hbars hall,
      findSome?_eq_some_iff (List.Subset.refl bars) hneeded]
  refine ⟨?_, ?_, ?_⟩
  · intro cs a ha b hb s t hs ht
    obtain ⟨r, hr, hinstant⟩ := instant?_eq_some_iff.1 hs
    obtain ⟨r', hr', hinstant'⟩ := instant?_eq_some_iff.1 ht
    cases (says_of_covers ha hr).unique (says_of_covers hb hr')
    rw [hinstant] at hinstant'
    exact Option.some.inj hinstant'
  · intro text layouts hperm
    exact hanswer text layouts hperm.subset (List.Subset.trans hneeded hperm.symm.subset)
  · intro text layouts hperm
    exact hanswer text layouts (List.Subset.trans hperm.subset hneeded) hperm.symm.subset

/-- The first of March 2024 at noon. -/
def noon : Instant :=
  (Instant.of? 1709294400 0).get rfl

open Layout in
/-- Short numbers and white space are accepted with a fraction and without, as the same instant, also by
the layouts in reverse. -/
theorem layouts_agree_of_noon :
    spaced.instant? "2024-3- 1 12:0:00".toList = some noon ∧
      (∀ t, Layout.instant? (spaced ++ [.fraction]) "2024-3- 1 12:0:00".toList = some t → noon = t) ∧
      bars.reverse.findSome? (Layout.instant? · (trim "2024-3- 1 12:0:00".toList)) = some noon ∧
      needed.reverse.findSome? (Layout.instant? · (trim "2024-3- 1 12:0:00".toList)) = some noon := by
  have hspaced : spaced.instant? "2024-3- 1 12:0:00".toList = some noon := by decide +kernel
  have hread : Instant.read? "2024-3- 1 12:0:00" = some noon := by decide +kernel
  refine ⟨hspaced, ?_, ?_, ?_⟩
  · intro t ht
    exact layouts_agree.1 _ spaced (by decide) (spaced ++ [.fraction]) (by decide) noon t hspaced ht
  · rw [layouts_agree.2.1 _ _ (List.reverse_perm bars), hread]
  · rw [layouts_agree.2.2 _ _ (List.reverse_perm needed), hread]

end Crossover
