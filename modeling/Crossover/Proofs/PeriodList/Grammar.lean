/-
Crossover.Proofs.PeriodList.Grammar — which texts are lists of periods, and what is wrong with the others.

What a list says is the row of its entries (`Entries`): its parts between commas, without the white space around
them, and without those that are then empty. It is read exactly if there is an entry and each entry is a period
(`read_eq_ok_iff`), and else the first entry that is none is blamed (`read_eq_error_iff`). A list that is written
from periods, however loosely, has just these as its entries (`Written.entries`).

  §1 Entries — the parts of a text that count.
  §2 Reading — one entry after the other.
  §3 Writing — lists that are written from periods.
-/
import Crossover.PeriodList
import Crossover.Proofs.Text.Natural
import Crossover.Proofs.Text.Trimming
import Crossover.Sweep

namespace Crossover

open Text

namespace PeriodList

/-! ## §1 Entries -/

/-- The entries of a list: its parts between commas, trimmed, those left out of which nothing remains. -/
def Entries (input : String) (es : List (List Char)) : Prop :=
  ∃ cores, List.Forall₂ Framed (input.toList.splitOn ',') cores ∧ es = cores.filter fun core => !core.isEmpty

theorem forall₂_framed_iff {parts cores : List (List Char)} :
    List.Forall₂ Framed parts cores ↔ parts.map trim = cores := by
  induction parts generalizing cores with
  | nil => simp [eq_comm]
  | cons part parts ih =>
    rw [List.forall₂_cons_left_iff, List.map_cons]
    constructor
    · rintro ⟨core, rest, hcore, hrest, rfl⟩
      rw [trim_eq_iff.2 hcore, ih.1 hrest]
    · rintro rfl
      exact ⟨_, _, trim_framed part, ih.2 rfl, rfl⟩

theorem entries_eq_iff {input : String} {es : List (List Char)} :
    entries input.toList = es ↔ Entries input es := by
  unfold entries Entries
  simp only [forall₂_framed_iff]
  constructor
  · rintro rfl
    exact ⟨_, rfl, rfl⟩
  · rintro ⟨cores, rfl, rfl⟩
    rfl

/-! ## §2 Reading -/

/-- An entry that is a period: a positive number of 64 bits. -/
def Period (e : List Char) (n : Nat) : Prop :=
  Natural.Says e n ∧ 1 ≤ n

/-- What is wrong with an entry that is no period. -/
inductive EntryFault (e : List Char) : PeriodFault → Prop where
  | zero (h : Natural.Says e 0) : EntryFault e .zero
  | entry {fault : NaturalFault} (h : Natural.FaultOf e fault) : EntryFault e (.entry (String.ofList e) fault)

/-- What is wrong with the entries of a text that is no list of periods: there are none, or the first one that
is no period. -/
inductive ListFault : List (List Char) → PeriodFault → Prop where
  | noEntries : ListFault [] .noEntries
  | first {before after : List (List Char)} {e : List Char} {ns : List Nat} {fault : PeriodFault}
    (hbefore : List.Forall₂ Period before ns) (he : EntryFault e fault) : ListFault (before ++ e :: after) fault

theorem period_eq_ok_iff {e : List Char} {n : Nat} : period e = .ok n ↔ Period e n := by
  unfold period Period
  rw [← Natural.read_eq_ok_iff]
  cases Natural.read e with
  | error fault => simp
  | ok m => cases m <;> simp <;> omega

theorem period_eq_error_iff {e : List Char} {fault : PeriodFault} :
    period e = .error fault ↔ EntryFault e fault := by
  constructor
  · intro h
    unfold period at h
    split at h
    · rename_i hread
      cases h
      exact .entry (Natural.read_eq_error_iff.1 hread)
    · rename_i hread
      cases h
      exact .zero (Natural.read_eq_ok_iff.1 hread)
    · cases h
  · rintro (hzero | hentry)
    · rw [period, Natural.read_eq_ok_iff.2 hzero]
      rfl
    · rw [period, Natural.read_eq_error_iff.2 hentry]

/-- Entries are read one after the other, and the first that is no period ends it. -/
theorem periods_eq_ok_iff {es : List (List Char)} {ns : List Nat} :
    periods es = .ok ns ↔ List.Forall₂ Period es ns := by
  induction es generalizing ns with
  | nil => simp [periods, eq_comm]
  | cons e es ih =>
    rw [periods, List.forall₂_cons_left_iff]
    simp only [← period_eq_ok_iff, ← ih]
    cases period e with
    | error fault => simp
    | ok n => cases periods es <;> simp [Except.map, eq_comm]

theorem periods_append {before : List (List Char)} {ns : List Nat} (h : List.Forall₂ Period before ns)
    (after : List (List Char)) : periods (before ++ after) = (periods after).map (ns ++ ·) := by
  induction h with
  | nil =>
    rw [List.nil_append]
    cases periods after <;> rfl
  | cons he _ ih =>
    rw [List.cons_append, periods, period_eq_ok_iff.2 he, ih]
    cases periods after <;> rfl

theorem exists_of_periods_eq_error {es : List (List Char)} {fault : PeriodFault} (h : periods es = .error fault) :
    ∃ before e after ns, es = before ++ e :: after ∧ List.Forall₂ Period before ns ∧ EntryFault e fault := by
  induction es with
  | nil => cases h
  | cons e es ih =>
    rw [periods] at h
    split at h
    · rename_i hperiod
      cases h
      exact ⟨[], e, es, [], rfl, .nil, period_eq_error_iff.1 hperiod⟩
    · rename_i n hperiod
      cases hperiods : periods es with
      | ok ns =>
        rw [hperiods] at h
        cases h
      | error other =>
        rw [hperiods] at h
        cases h
        obtain ⟨before, d, after, ns, rfl, hbefore, hfault⟩ := ih hperiods
        exact ⟨e :: before, d, after, n :: ns, rfl, .cons (period_eq_ok_iff.1 hperiod) hbefore, hfault⟩

theorem readChars_of_cons (cs : List Char) {e : List Char} {es : List (List Char)} (h : entries cs = e :: es) :
    readChars cs = periods (e :: es) := by
  rw [readChars, h]

theorem readChars_eq_error_iff {input : String} {es : List (List Char)} (h : entries input.toList = es)
    {fault : PeriodFault} : readChars input.toList = .error fault ↔ ListFault es fault := by
  subst h
  constructor
  · intro h
    cases hentries : entries input.toList with
    | nil =>
      rw [readChars, hentries] at h
      cases h
      exact .noEntries
    | cons e es =>
      rw [readChars_of_cons _ hentries] at h
      obtain ⟨before, d, after, ns, hes, hbefore, hfault⟩ := exists_of_periods_eq_error h
      rw [hes]
      exact .first hbefore hfault
  · intro h
    generalize hentries : entries input.toList = es at h
    cases h with
    | noEntries => rw [readChars, hentries]
    | @first before after e ns fault hbefore he =>
      have hperiods : periods (before ++ e :: after) = .error fault := by
        rw [periods_append hbefore, periods, period_eq_error_iff.2 he]
        rfl
      obtain ⟨d, es, hcons⟩ := List.exists_cons_of_ne_nil (List.append_ne_nil_of_right_ne_nil before
        (List.cons_ne_nil e after))
      rw [readChars_of_cons _ (hentries.trans hcons), ← hcons, hperiods]

theorem readChars_eq_ok_iff {input : String} {es : List (List Char)} (h : entries input.toList = es)
    {ns : List Nat} : readChars input.toList = .ok ns ↔ es ≠ [] ∧ List.Forall₂ Period es ns := by
  rw [← periods_eq_ok_iff]
  cases es with
  | nil => simp [readChars, h]
  | cons e es => simp [readChars_of_cons _ h]

/-- A text is a list of periods exactly if it has entries and they are periods. -/
theorem read_eq_ok_iff {input : String} {ns : List Nat} :
    read input = .ok ns ↔ ∃ es, Entries input es ∧ es ≠ [] ∧ List.Forall₂ Period es ns := by
  have hread : read input = .ok ns ↔ readChars input.toList = .ok ns := by
    unfold read
    cases readChars input.toList <;> simp [Except.mapError]
  rw [hread, readChars_eq_ok_iff rfl]
  constructor
  · exact fun h => ⟨_, entries_eq_iff.1 rfl, h⟩
  · rintro ⟨es, hes, h⟩
    rwa [entries_eq_iff.2 hes]

theorem read_eq_error_iff {input : String} {b : BadPeriodList} :
    read input = .error b ↔ b.input = input ∧ ∃ es, Entries input es ∧ ListFault es b.fault := by
  have hread : read input = .error b ↔ b.input = input ∧ readChars input.toList = .error b.fault := by
    unfold read
    cases b
    cases readChars input.toList <;> simp [Except.mapError, eq_comm]
  rw [hread, readChars_eq_error_iff rfl]
  constructor
  · exact fun h => ⟨h.1, _, entries_eq_iff.1 rfl, h.2⟩
  · rintro ⟨hinput, es, hes, h⟩
    refine ⟨hinput, ?_⟩
    rwa [entries_eq_iff.2 hes]

/-! ## §3 Writing -/

/-- The parts of a list as it may be written: each period in decimal, with white space around it or not, and
blank parts anywhere. -/
inductive Written : List Nat → List (List Char) → Prop where
  | nil : Written [] []
  | blank {ns : List Nat} {parts : List (List Char)} {space : List Char}
    (hspace : ∀ c ∈ space, isBlank c = true) (hparts : Written ns parts) : Written ns (space :: parts)
  | period {ns : List Nat} {parts : List (List Char)} {front back : List Char} (n : Nat)
    (hfront : ∀ c ∈ front, isBlank c = true) (hback : ∀ c ∈ back, isBlank c = true)
    (hparts : Written ns parts) : Written (n :: ns) ((front ++ Digits.ofNat n ++ back) :: parts)

theorem comma_notMem_of_blank {space : List Char} (h : ∀ c ∈ space, isBlank c = true) : ',' ∉ space :=
  fun hmem => absurd (h ',' hmem) (by decide)

theorem comma_notMem_ofNat (n : Nat) : ',' ∉ Digits.ofNat n :=
  fun hmem => absurd (Digits.isDigit_of_mem_ofNat n ',' hmem) (by decide)

variable {ns : List Nat} {parts : List (List Char)}

theorem Written.comma_notMem (h : Written ns parts) : ∀ part ∈ parts, ',' ∉ part := by
  induction h with
  | nil => simp
  | blank hspace _ ih => exact List.forall_mem_cons.2 ⟨comma_notMem_of_blank hspace, ih⟩
  | period n hfront hback _ ih =>
    refine List.forall_mem_cons.2 ⟨?_, ih⟩
    simp [comma_notMem_of_blank hfront, comma_notMem_of_blank hback, comma_notMem_ofNat]

/-- A number has no white space at its ends. -/
theorem framed_ofNat {front back : List Char} (n : Nat) (hfront : ∀ c ∈ front, isBlank c = true)
    (hback : ∀ c ∈ back, isBlank c = true) : Framed (front ++ Digits.ofNat n ++ back) (Digits.ofNat n) := by
  have hdigit := Digits.isDigit_of_mem_ofNat n
  exact ⟨⟨front, back, rfl, hfront, hback⟩, fun c hc => isBlank_of_isDigit (hdigit c (List.mem_of_mem_head? hc)),
    fun c hc => isBlank_of_isDigit (hdigit c (List.mem_of_mem_getLast? hc))⟩

theorem Written.exists_cores (h : Written ns parts) :
    ∃ cores, List.Forall₂ Framed parts cores ∧
      ns.map Digits.ofNat = cores.filter fun core => !core.isEmpty := by
  induction h with
  | nil => exact ⟨[], .nil, rfl⟩
  | @blank ns parts space hspace _ ih =>
    obtain ⟨cores, hcores, hns⟩ := ih
    have hframed : Framed space [] := ⟨⟨space, [], by simp, hspace, by simp⟩, by simp, by simp⟩
    exact ⟨[] :: cores, .cons hframed hcores, hns⟩
  | period n hfront hback _ ih =>
    obtain ⟨cores, hcores, hns⟩ := ih
    refine ⟨Digits.ofNat n :: cores, .cons (framed_ofNat n hfront hback) hcores, ?_⟩
    simp [hns, Digits.ofNat_ne_nil]

/-- The entries of a list that is written from periods are these in decimal. -/
theorem Written.entries (h : Written ns parts) (hne : parts ≠ []) :
    Entries (String.ofList ([','].intercalate parts)) (ns.map Digits.ofNat) := by
  obtain ⟨cores, hcores, hns⟩ := h.exists_cores
  refine ⟨cores, ?_, hns⟩
  rwa [String.toList_ofList, List.splitOn_intercalate ',' h.comma_notMem hne]

theorem forall₂_period_ofNat (h : ∀ n ∈ ns, 1 ≤ n ∧ n ≤ Natural.greatest) :
    List.Forall₂ Period (ns.map Digits.ofNat) ns := by
  induction ns with
  | nil => exact .nil
  | cons n ns ih =>
    obtain ⟨⟨hpos, hfits⟩, hns⟩ := List.forall_mem_cons.1 h
    refine .cons ⟨?_, hpos⟩ (ih hns)
    exact Natural.read_eq_ok_iff.1 (Natural.read_ofNat hfits)

theorem Written.read_eq_ok (h : Written ns parts) (hne : ns ≠ []) (hns : ∀ n ∈ ns, 1 ≤ n ∧ n ≤ Natural.greatest) :
    read (String.ofList ([','].intercalate parts)) = .ok ns := by
  have hparts : parts ≠ [] := by
    rintro rfl
    cases h
    exact hne rfl
  refine read_eq_ok_iff.2 ⟨_, h.entries hparts, ?_, forall₂_period_ofNat hns⟩
  simpa using hne

theorem one_le_of_forall₂ {es : List (List Char)} (h : List.Forall₂ Period es ns) : ∀ n ∈ ns, 1 ≤ n := by
  induction h with
  | nil => simp
  | cons he _ ih => exact List.forall_mem_cons.2 ⟨he.2, ih⟩

theorem checkSide_of_read {input : String} (h : read input = .ok ns) (side : Side) :
    Sweep.checkSide side ns = .ok () := by
  obtain ⟨es, -, hne, hperiods⟩ := read_eq_ok_iff.1 h
  have hsome : ns ≠ [] := by
    rintro rfl
    cases hperiods
    exact hne rfl
  have hpos : 0 ∉ ns := fun hzero => absurd (one_le_of_forall₂ hperiods 0 hzero) (by decide)
  simp [Sweep.checkSide, hsome, hpos]

/-- Periods that have been read for both sides are a sweep. -/
theorem checked_of_read {input other : String} {fast slow : List Nat} (hfast : read input = .ok fast)
    (hslow : read other = .ok slow) : Sweep.checked fast slow = .ok ⟨fast, slow⟩ := by
  rw [Sweep.checked, Sweep.check, checkSide_of_read hfast, checkSide_of_read hslow]
  rfl

end PeriodList

/-- **A list of periods is read exactly if it is one.** Its parts between commas are trimmed, and those of which
something remains are its entries. It is a list of periods if there is an entry and each is a period: digits,
leading zeros allowed, with a plus sign in front of them or not, for a number from one to the greatest of 64 bits.
Then it is read as these numbers, one for each entry, in their order. Otherwise the fault carries the whole text
and says what is wrong with the first entry that is no period, or that there are no entries. So periods that are
written in decimal with commas between them are read back, whatever white space and blank parts are put in, and
all periods that are read pass the checks of a sweep. -/
theorem period_lists_by_grammar :
    (∀ input ns, PeriodList.read input = .ok ns ↔
      ∃ es, PeriodList.Entries input es ∧ es ≠ [] ∧ List.Forall₂ PeriodList.Period es ns) ∧
    (∀ input b, PeriodList.read input = .error b ↔
      b.input = input ∧ ∃ es, PeriodList.Entries input es ∧ PeriodList.ListFault es b.fault) ∧
    (∀ ns parts, ns ≠ [] → (∀ n ∈ ns, 1 ≤ n ∧ n ≤ Natural.greatest) → PeriodList.Written ns parts →
      PeriodList.read (String.ofList ([','].intercalate parts)) = .ok ns) ∧
    ∀ input other fast slow, PeriodList.read input = .ok fast → PeriodList.read other = .ok slow →
      Sweep.checked fast slow = .ok ⟨fast, slow⟩ := by
  refine ⟨fun input ns => PeriodList.read_eq_ok_iff, fun input b => PeriodList.read_eq_error_iff, ?_, ?_⟩
  · intro ns parts hne hns hparts
    exact hparts.read_eq_ok hne hns
  · intro input other fast slow hfast hslow
    exact PeriodList.checked_of_read hfast hslow

/-- A blank part, a period behind a no-break space, the greatest period before a tab, and an empty part. -/
def looseParts : List (List Char) :=
  [[' '], ['\u00a0'] ++ Digits.ofNat 5 ++ [], [] ++ Digits.ofNat Natural.greatest ++ ['\t'], []]

/-- They are read as two periods. Of three entries that are no periods the first one is blamed, and for its first
character that is no digit, although its number would also become too large. -/
theorem period_lists_by_grammar_of_loose :
    PeriodList.read (String.ofList ([','].intercalate looseParts)) = .ok [5, Natural.greatest] ∧
    Sweep.checked [5, Natural.greatest] [5, Natural.greatest] =
      .ok ⟨[5, Natural.greatest], [5, Natural.greatest]⟩ ∧
    PeriodList.read "+07, 1x9999999999999999999999,0,99999999999999999999" =
      .error ⟨"+07, 1x9999999999999999999999,0,99999999999999999999",
        .entry "1x9999999999999999999999" .badDigit⟩ := by
  obtain ⟨-, hfault, hwritten, hchecked⟩ := period_lists_by_grammar
  have hparts : PeriodList.Written [5, Natural.greatest] looseParts :=
    .blank (List.all_eq_true.1 rfl) (.period 5 (List.all_eq_true.1 rfl) (by simp)
      (.period Natural.greatest (by simp) (List.all_eq_true.1 rfl) (.blank (by simp) .nil)))
  have hread := hwritten [5, Natural.greatest] looseParts (List.cons_ne_nil _ _) (by decide) hparts
  refine ⟨hread, hchecked _ _ _ _ hread hread, ?_⟩
  refine (hfault _ _).2 ⟨rfl, ["+07".toList, "1x9999999999999999999999".toList, "0".toList,
    "99999999999999999999".toList], ?_, ?_⟩
  · exact PeriodList.entries_eq_iff.1 (by decide +kernel)
  · have hfirst : PeriodList.Period "+07".toList 7 :=
      ⟨⟨['0', '7'], .inr rfl, List.cons_ne_nil _ _, List.all_eq_true.1 rfl, rfl, by decide⟩, by decide⟩
    have hsecond : Natural.FaultOf "1x9999999999999999999999".toList .badDigit :=
      .character ['1'] 'x' "9999999999999999999999".toList rfl (List.all_eq_true.1 rfl) (by decide) (.badDigit rfl)
    exact @PeriodList.ListFault.first ["+07".toList] _ _ _ _ (.cons hfirst .nil) (.entry hsecond)

end Crossover
