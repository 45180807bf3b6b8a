/-
Crossover.Proofs.Label.RoundTrip — labels of a data file keep their kind, their value and their order.

A label is written as a number or as a string, and nothing else says which kind it is. Both are JSON values
that are read back whatever ends them, a number as a position and a string as the time that clocks show. So a
label and a list of labels survive as they are, unless there is a leap second among them that does not end a
minute (`Label.Regular`). Sorting is by an order that decides between any two labels, with the positions in front.

  §1 Labels  — one label.
  §2 Sorting — labels in ascending order.
  §3 Lists   — many labels in one text.
-/
import Crossover.Proofs.Calendar.RoundTrip
import Crossover.Proofs.Json.Compact
import Crossover.Proofs.Label.Order
import Crossover.Proofs.Lists.Alongside
import Crossover.Text.Natural

namespace Crossover

open Text

namespace Label

/-! ## §1 Labels -/

/-- A position of 64 bits, or a time. -/
def Fits : Label → Prop
  | position n => n ≤ Natural.greatest
  | time _ => True

/-- A position, or a regular time. -/
def Regular : Label → Prop
  | position _ => True
  | time t => t.Regular

/-- The label as clocks show it: positions as they are, and times as clocks show them. -/
def asShown : Label → Label
  | position n => position n
  | time t => time t.asShown

theorem asShown_eq_self_iff {k : Label} : k.asShown = k ↔ k.Regular := by
  cases k with
  | position n => exact iff_of_true rfl trivial
  | time t => rw [asShown, time.injEq, Instant.asShown_eq_self_iff, Regular]

theorem readable_toJson (k : Label) : k.toJson.Readable := by
  cases k with
  | position n => exact Json.readable_ofNat n
  | time t => exact Json.readable_string t.isoText

/-- A label is known by its JSON value alone, as clocks show it. -/
theorem ofJson?_toJson {k : Label} (h : k.Fits) : ofJson? k.toJson = some k.asShown := by
  cases k with
  | position n =>
    have hdigits : (Digits.ofNat n).all Char.isDigit = true :=
      List.all_eq_true.2 (Digits.isDigit_of_mem_ofNat n)
    have hsmall : n < 18446744073709551616 := Nat.lt_succ_of_le h
    simp [toJson, ofJson?, Json.ofNat, Digits.text, String.toList_ofList, Digits.value_ofNat, hdigits,
      hsmall, asShown]
  | time t => simp only [toJson, ofJson?, Instant.readData?_isoText, Option.map_some, asShown]

/-- A label that is read has 64 bits, and a time that is regular. -/
theorem fits_and_regular_of_ofJson? {v : Json} {k : Label} (h : ofJson? v = some k) : k.Fits ∧ k.Regular := by
  cases v with
  | number literal =>
    simp only [ofJson?] at h
    split at h
    · rename_i hsmall
      cases h
      simp only [Bool.and_eq_true, decide_eq_true_eq] at hsmall
      exact ⟨Nat.le_of_lt_succ hsmall.2, trivial⟩
    · cases h
  | string text =>
    obtain ⟨t, ht, rfl⟩ := Option.map_eq_some_iff.1 h
    exact ⟨trivial, Instant.regular_of_readData? ht⟩
  | _ => cases h

/-! ## §2 Sorting -/

theorem sort_perm (ks : List Label) : (sort ks).Perm ks :=
  List.mergeSort_perm _ _

/-- No label comes after one that it is before. -/
theorem sort_pairwise (ks : List Label) : (sort ks).Pairwise fun a b => ¬ b.Before a := by
  have htrans : ∀ a b c : Label, (!decide (b.Before a)) = true → (!decide (c.Before b)) = true →
      (!decide (c.Before a)) = true := by
    intro a b c hab hbc
    simp only [Bool.not_eq_true', decide_eq_false_iff_not] at hab hbc ⊢
    intro hca
    rcases before_or_eq_or_before b c with hlt | rfl | hgt
    · exact hab (hlt.trans hca)
    · exact hab hca
    · exact hbc hgt
  have htotal : ∀ a b : Label, (!decide (b.Before a) || !decide (a.Before b)) = true := by
    intro a b
    by_cases hba : b.Before a
    · simp [hba.asymm]
    · simp [hba]
  have hsorted := List.pairwise_mergeSort htrans htotal ks
  simpa only [sort, Bool.not_eq_true', decide_eq_false_iff_not] using hsorted

/-- In labels that are in order, all positions come before all times. -/
theorem positions_then_times {ks : List Label} (h : ks.Pairwise fun a b => ¬ b.Before a) :
    ∃ (ps : List Nat) (ts : List Instant), ks = ps.map position ++ ts.map time := by
  induction ks with
  | nil => exact ⟨[], [], rfl⟩
  | cons k ks ih =>
    obtain ⟨hk, hks⟩ := List.pairwise_cons.1 h
    obtain ⟨ps, ts, rfl⟩ := ih hks
    cases k with
    | position n => exact ⟨n :: ps, ts, rfl⟩
    | time t =>
      cases ps with
      | nil => exact ⟨[], t :: ts, rfl⟩
      | cons p ps => exact absurd trivial (hk (position p) List.mem_cons_self)

/-! ## §3 Lists -/

/-- The label of a JSON text. -/
def ofJsonText? (text : String) : Option Label :=
  (Json.read? text).bind ofJson?

/-- Labels as the array of a JSON text. -/
def listText (ks : List Label) : String :=
  (Json.array (ks.map toJson)).compact

/-- The labels of a JSON text that is an array. -/
def ofListText? (text : String) : Option (List Label) :=
  match Json.read? text with
  | some (.array items) => items.mapM ofJson?
  | _ => none

/-- The JSON text of a label is read back as the label that clocks show. -/
theorem ofJsonText?_compact {k : Label} (h : k.Fits) : ofJsonText? k.toJson.compact = some k.asShown := by
  rw [ofJsonText?, (readable_toJson k).read?_compact, Option.bind_some, ofJson?_toJson h]

theorem ofJsonText?_compact_eq_self_iff {k : Label} (h : k.Fits) :
    ofJsonText? k.toJson.compact = some k ↔ k.Regular := by
  rw [ofJsonText?_compact h, Option.some.injEq, asShown_eq_self_iff]

theorem mapM_ofJson?_toJson {ks : List Label} (h : ∀ k ∈ ks, k.Fits) :
    (ks.map toJson).mapM ofJson? = some (ks.map asShown) := by
  induction ks with
  | nil => rfl
  | cons k ks ih =>
    obtain ⟨hk, hks⟩ := List.forall_mem_cons.1 h
    rw [List.map_cons, List.mapM_cons, ofJson?_toJson hk, ih hks]
    rfl

/-- Labels in one array are read back as clocks show them. -/
theorem ofListText?_listText {ks : List Label} (h : ∀ k ∈ ks, k.Fits) :
    ofListText? (listText ks) = some (ks.map asShown) := by
  have hreadable : ∀ v ∈ ks.map toJson, v.Readable := by
    intro v hv
    obtain ⟨k, -, rfl⟩ := List.mem_map.1 hv
    exact readable_toJson k
  rw [ofListText?, listText, (Json.readable_array hreadable).read?_compact]
  exact mapM_ofJson?_toJson h

end Label

/-- **Labels survive being written to a data file.** A label of 64 bits is read back from its JSON text as clocks
show it, a position as a position and a time as a time. That is the label itself exactly if it is regular: a position, or
a time that does not lie in a leap second within a minute. So different regular labels have different texts. Such
labels are read back from one array as they were, so that it makes no difference whether they are sorted before they
are written or after they are read; and sorted labels are the same labels in ascending order, all positions before all
times. Every label that was read from a text is of that kind. -/
theorem label_json_round_trip :
    (∀ k : Label, k.Fits → Label.ofJsonText? k.toJson.compact = some k.asShown) ∧
    (∀ k : Label, k.Fits → (Label.ofJsonText? k.toJson.compact = some k ↔ k.Regular)) ∧
    (∀ j k : Label, j.Fits → k.Fits → j.Regular → k.Regular → j.toJson.compact = k.toJson.compact → j = k) ∧
    (∀ ks : List Label, (∀ k ∈ ks, k.Fits ∧ k.Regular) →
      Label.ofListText? (Label.listText ks) = some ks ∧
      Label.ofListText? (Label.listText (Label.sort ks)) =
        (Label.ofListText? (Label.listText ks)).map Label.sort) ∧
    (∀ ks : List Label, (Label.sort ks).Perm ks ∧ (Label.sort ks).Pairwise (fun a b => ¬ b.Before a) ∧
      ∃ (ps : List Nat) (ts : List Instant), Label.sort ks = ps.map .position ++ ts.map .time) ∧
    ∀ (text : String) (k : Label), Label.ofJsonText? text = some k → k.Fits ∧ k.Regular := by
  have hlist : ∀ ks : List Label, (∀ k ∈ ks, k.Fits ∧ k.Regular) →
      Label.ofListText? (Label.listText ks) = some ks := by
    intro ks hks
    rw [Label.ofListText?_listText fun k hk => (hks k hk).1,
      map_eq_self fun k hk => Label.asShown_eq_self_iff.2 (hks k hk).2]
  refine ⟨fun k => Label.ofJsonText?_compact, fun k => Label.ofJsonText?_compact_eq_self_iff, ?_, fun ks hks => ?_,
    fun ks => ?_, fun text k htext => ?_⟩
  · intro j k hjfits hkfits hj hk htext
    have hread := (Label.ofJsonText?_compact_eq_self_iff hjfits).2 hj
    rw [htext, (Label.ofJsonText?_compact_eq_self_iff hkfits).2 hk] at hread
    exact (Option.some.inj hread).symm
  · have hsorted : ∀ k ∈ Label.sort ks, k.Fits ∧ k.Regular := fun k hk =>
      hks k ((Label.sort_perm ks).mem_iff.1 hk)
    refine ⟨hlist ks hks, ?_⟩
    rw [hlist ks hks, hlist _ hsorted, Option.map_some]
  · have horder := Label.sort_pairwise ks
    exact ⟨Label.sort_perm ks, horder, Label.positions_then_times horder⟩
  · obtain ⟨v, -, hv⟩ := Option.bind_eq_some_iff.1 htext
    exact Label.fits_and_regular_of_ofJson? hv

/-- The last second of the calendar, the leap second of 2012 nearly over, and the last position. -/
def outermostLabels : List Label :=
  [.time ((Instant.of? 8210266876799 999999999).get rfl), .time ((Instant.of? 1341100799 1750000000).get rfl),
    .position 18446744073709551615]

/-- Their texts have a signed year, second sixty and twenty digits, and are read back in order. -/
theorem label_json_round_trip_of_outermost :
    Label.listText outermostLabels =
      "[\"+262142-12-31T23:59:59.999999999\",\"2012-06-30T23:59:60.750\",18446744073709551615]" ∧
    Label.ofListText? (Label.listText outermostLabels) = some outermostLabels ∧
    Label.ofListText? (Label.listText (Label.sort outermostLabels)) = some outermostLabels.reverse ∧
    ∀ k ∈ outermostLabels, Label.ofJsonText? k.toJson.compact = some k := by
  have hfits : ∀ k ∈ outermostLabels, k.Fits ∧ k.Regular := by
    intro k hk
    simp only [outermostLabels, List.mem_cons, List.not_mem_nil, or_false] at hk
    rcases hk with rfl | rfl | rfl
    · exact ⟨trivial, .inl (by decide)⟩
    · exact ⟨trivial, .inr (by decide)⟩
    · exact ⟨Nat.le_refl _, trivial⟩
  obtain ⟨-, hone, -, hlists, -⟩ := label_json_round_trip
  obtain ⟨hread, hsort⟩ := hlists outermostLabels hfits
  refine ⟨by decide +kernel, hread, ?_, fun k hk => (hone k (hfits k hk).1).2 (hfits k hk).2⟩
  have hreverse : Label.sort outermostLabels = outermostLabels.reverse := by cbv
  rw [hsort, hread, Option.map_some, hreverse]

/-- A leap second that does not end a minute, and the second behind it. -/
def strayLabels : List Label :=
  [.time Instant.strayLeap, .time Instant.afterStrayLeap]

/-- The leap second has the text of a time in the next second, and is read back as that. So it is in front if the
labels are sorted before they are written, and behind if they are sorted after they are read. -/
theorem label_json_lost_within_minute :
    (Label.time Instant.strayLeap).toJson.compact = (Label.time Instant.strayLeap.asShown).toJson.compact ∧
    Label.ofJsonText? (Label.time Instant.strayLeap).toJson.compact = some (.time Instant.strayLeap.asShown) ∧
    Instant.strayLeap ≠ Instant.strayLeap.asShown ∧
    Label.ofListText? (Label.listText (Label.sort strayLabels)) ≠
      (Label.ofListText? (Label.listText strayLabels)).map Label.sort := by
  have hfits : ∀ k ∈ strayLabels, k.Fits := by simp [strayLabels, Label.Fits]
  have hsorted : Label.sort strayLabels = strayLabels := by cbv
  have hturned : Label.sort (strayLabels.map Label.asShown) = (strayLabels.map Label.asShown).reverse := by cbv
  have hdifferent : strayLabels.map Label.asShown ≠ (strayLabels.map Label.asShown).reverse := by decide
  refine ⟨by decide +kernel, Label.ofJsonText?_compact trivial, by decide, fun hsame => hdifferent ?_⟩
  rw [hsorted, Label.ofListText?_listText hfits, Option.map_some, hturned] at hsame
  exact Option.some.inj hsame

end Crossover
