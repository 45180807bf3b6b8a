/-
Crossover.Proofs.Numeric.Spelling — the texts of decimals, and their readers.

The text of a number has digits, a point and digits behind it or not, and an exponent or not (`Spelling`). Both
readers take such a text as a whole, the one for numerals (`read?_chars`) and the one for literals in data
(`number?_chars`). In every style, the layout of a decimal is such a text and says the same number
(`exists_says_layout`), whether zeros fill it up, the point stands within its digits, or an exponent moves it.

  §1 Spellings — digits, a point, an exponent.
  §2 Readers   — two readers of one text.
  §3 Layouts   — plain and with an exponent.
-/
import Crossover.Numeric.Numerals
import Crossover.Proofs.Json.Compact
import Crossover.Proofs.Numeric.Shortest

namespace Crossover.Numeric

open Text

/-! ## §1 Spellings -/

/-- The parts of the text of a number without its sign; a fraction has a point in front of it. -/
structure Spelling where
  whole : List Char
  fraction : List Char
  exponent : List Char

namespace Spelling

def chars (s : Spelling) : List Char :=
  s.whole ++ ((if s.fraction.isEmpty then [] else '.' :: s.fraction) ++ s.exponent)

/-- What stands behind a number for a power of ten: nothing, or the letter, a sign or not, and digits. -/
inductive ExponentText : List Char → Int → Prop where
  | none : ExponentText [] 0
  | positive {run : List Char} (hne : run ≠ []) (hrun : ∀ c ∈ run, c.isDigit = true) :
    ExponentText ('e' :: run) (Digits.value run)
  | plus {run : List Char} (hne : run ≠ []) (hrun : ∀ c ∈ run, c.isDigit = true) :
    ExponentText ('e' :: '+' :: run) (Digits.value run)
  | minus {run : List Char} (hne : run ≠ []) (hrun : ∀ c ∈ run, c.isDigit = true) :
    ExponentText ('e' :: '-' :: run) (-(Digits.value run : Int))

/-- The parts of a text that stands for a decimal. No zero stands in front of other digits. -/
structure Says (s : Spelling) (d : Decimal) : Prop where
  whole : s.whole = ['0'] ∨ ∃ c rest, s.whole = c :: rest ∧ c ≠ '0' ∧ ∀ digit ∈ s.whole, digit.isDigit = true
  fraction : ∀ c ∈ s.fraction, c.isDigit = true
  exponent : ExponentText s.exponent (d.exponent + s.fraction.length)
  significand : Digits.value (s.whole ++ s.fraction) = d.significand

variable {s : Spelling} {d : Decimal}

theorem Says.isDigit_of_mem_whole (h : s.Says d) : ∀ c ∈ s.whole, c.isDigit = true := by
  rcases h.whole with hzero | ⟨c, rest, -, -, hdigits⟩
  · simp [hzero]
  · exact hdigits

theorem Says.whole_ne_nil (h : s.Says d) : s.whole ≠ [] := by
  rcases h.whole with hzero | ⟨c, rest, hwhole, -, -⟩
  · simp [hzero]
  · simp [hwhole]

/-- The text of a number starts with a digit. -/
theorem Says.head (h : s.Says d) : ∃ c rest, s.chars = c :: rest ∧ c.isDigit = true := by
  obtain ⟨c, rest, hwhole⟩ := List.exists_cons_of_ne_nil h.whole_ne_nil
  exact ⟨c, _, by rw [chars, hwhole, List.cons_append], h.isDigit_of_mem_whole c (hwhole ▸ List.mem_cons_self)⟩

/-- The characters that numbers are written with. -/
def isNumeric (c : Char) : Bool :=
  c.isDigit || c = '.' || c = 'e' || c = '+' || c = '-'

theorem ExponentText.isNumeric {cs : List Char} {e : Int} (h : ExponentText cs e) :
    ∀ c ∈ cs, isNumeric c = true := by
  have hdigit : ∀ run : List Char, (∀ c ∈ run, c.isDigit = true) → ∀ c ∈ run, Spelling.isNumeric c = true :=
    fun run hrun c hc => by simp [Spelling.isNumeric, hrun c hc]
  cases h with
  | none => simp
  | positive hne hrun => exact List.forall_mem_cons.2 ⟨rfl, hdigit _ hrun⟩
  | plus hne hrun => exact List.forall_mem_cons.2 ⟨rfl, List.forall_mem_cons.2 ⟨rfl, hdigit _ hrun⟩⟩
  | minus hne hrun => exact List.forall_mem_cons.2 ⟨rfl, List.forall_mem_cons.2 ⟨rfl, hdigit _ hrun⟩⟩

theorem Says.isNumeric (h : s.Says d) : ∀ c ∈ s.chars, Spelling.isNumeric c = true := by
  intro c hc
  rw [chars, List.mem_append, List.mem_append] at hc
  rcases hc with hwhole | hfraction | hexponent
  · simp [Spelling.isNumeric, h.isDigit_of_mem_whole c hwhole]
  · split at hfraction
    · cases hfraction
    · rcases List.mem_cons.1 hfraction with rfl | hdigit
      · rfl
      · simp [Spelling.isNumeric, h.fraction c hdigit]
  · exact h.exponent.isNumeric c hexponent

/-! ## §2 Readers -/

/-- A digit is no sign. -/
theorem sign_of_isDigit {c : Char} (hc : c.isDigit = true) (rest : List Char) :
    Numeral.sign (c :: rest) = (false, c :: rest) := by
  have hminus : c ≠ '-' := ne_of_class hc rfl
  have hplus : c ≠ '+' := ne_of_class hc rfl
  simp [Numeral.sign, hminus, hplus]

theorem exponentSign_of_isDigit {c : Char} (hc : c.isDigit = true) (rest : List Char) :
    Json.exponentSign (c :: rest) = ([], c :: rest) := by
  have hplus : c ≠ '+' := ne_of_class hc rfl
  simp [Json.exponentSign, hplus, Json.minus_of_isDigit hc]

theorem exponent?_eq {cs : List Char} {e : Int} (h : ExponentText cs e) : Numeral.exponent? cs = some e := by
  cases h with
  | none => rfl
  | @positive run hne hrun =>
    obtain ⟨c, rest, rfl⟩ := List.exists_cons_of_ne_nil hne
    have hsign := sign_of_isDigit (hrun c List.mem_cons_self) rest
    have hall : (c :: rest).all Char.isDigit = true := List.all_eq_true.2 hrun
    simp only [Numeral.exponent?, hsign, hall]
    rfl
  | @plus run hne hrun =>
    have hall : run.all Char.isDigit = true := List.all_eq_true.2 hrun
    have hempty : run.isEmpty = false := List.isEmpty_eq_false_iff.2 hne
    simp [Numeral.exponent?, Numeral.sign, hall, hempty]
  | @minus run hne hrun =>
    have hall : run.all Char.isDigit = true := List.all_eq_true.2 hrun
    have hempty : run.isEmpty = false := List.isEmpty_eq_false_iff.2 hne
    simp [Numeral.exponent?, Numeral.sign, hall, hempty]

theorem ExponentText.nil_or_cons {cs : List Char} {e : Int} (h : ExponentText cs e) :
    cs = [] ∨ ∃ rest, cs = 'e' :: rest := by
  cases h with
  | none => exact .inl rfl
  | _ => exact .inr ⟨_, rfl⟩

/-- Behind the digits of a number stands a point with more digits, or none, and then the letter of an exponent or
what follows the number. -/
theorem tail_cases (s : Spelling) (rest : List Char) :
    (s.fraction = [] ∧ s.chars ++ rest = s.whole ++ (s.exponent ++ rest)) ∨
      (s.fraction ≠ [] ∧ s.chars ++ rest = s.whole ++ ('.' :: (s.fraction ++ (s.exponent ++ rest)))) := by
  by_cases hfraction : s.fraction = []
  · exact .inl ⟨hfraction, by simp [chars, hfraction]⟩
  · exact .inr ⟨hfraction, by simp [chars, hfraction]⟩

theorem ExponentText.stops {cs rest : List Char} {e : Int} (h : ExponentText cs e) (hrest : Digits.Stops rest) :
    Digits.Stops (cs ++ rest) := by
  rcases h.nil_or_cons with rfl | ⟨more, rfl⟩
  · exact hrest
  · exact Digits.stops_cons rfl _

/-- A numeral is read with its sign and its decimal. -/
theorem read?_chars (h : s.Says d) (negative : Bool) :
    Numeral.read? ((if negative then ['-'] else []) ++ s.chars) = some ⟨negative, d⟩ := by
  have hsign : Numeral.sign ((if negative then ['-'] else []) ++ s.chars) = (negative, s.chars) := by
    obtain ⟨c, rest, hchars, hdigit⟩ := h.head
    rw [hchars]
    cases negative with
    | true => rfl
    | false => exact sign_of_isDigit hdigit rest
  have hexponent := exponent?_eq h.exponent
  have hstops := h.exponent.stops Digits.stops_nil
  have hne : s.whole.isEmpty = false := List.isEmpty_eq_false_iff.2 h.whole_ne_nil
  have hdecimal : (⟨Digits.value (s.whole ++ s.fraction), d.exponent + s.fraction.length - s.fraction.length⟩ :
      Decimal) = d := by
    rw [h.significand, add_sub_cancel_right]
  rw [Numeral.read?, hsign, ← List.append_nil s.chars]
  dsimp only
  rcases s.tail_cases [] with ⟨hfraction, hchars⟩ | ⟨-, hchars⟩
  · rw [hchars, Digits.takeAll_run h.isDigit_of_mem_whole hstops, List.append_nil]
    rw [hfraction] at hdecimal hexponent
    rcases h.exponent.nil_or_cons with hnil | ⟨more, hcons⟩
    · rw [hnil] at hexponent ⊢
      simpa [hne, hexponent] using hdecimal
    · rw [hcons] at hexponent ⊢
      simpa [hne, hexponent] using hdecimal
  · have hrun := Digits.takeAll_run h.fraction hstops
    rw [List.append_nil] at hrun
    rw [hchars, Digits.takeAll_run h.isDigit_of_mem_whole (Digits.stops_cons rfl _), List.append_nil]
    simp only [hrun, hexponent, hne, Bool.false_and, Bool.false_eq_true, if_false, Option.map_some, hdecimal]

/-- An exponent is taken from a text as it was written. -/
theorem ExponentText.exponent?_append {cs rest : List Char} {e : Int} (h : ExponentText cs e)
    (hrest : Json.Ends rest) : Json.exponent? (cs ++ rest) = some (cs, rest) := by
  have hstops := hrest.stops
  cases h with
  | none => exact Json.exponent?_of_ends hrest
  | @positive run hne hrun =>
    have hsign : Json.exponentSign (run ++ rest) = ([], run ++ rest) := by
      obtain ⟨c, more, rfl⟩ := List.exists_cons_of_ne_nil hne
      exact exponentSign_of_isDigit (hrun c List.mem_cons_self) (more ++ rest)
    simp [Json.exponent?, hsign, Json.digits?_run hne hrun hstops]
  | @plus run hne hrun => simp [Json.exponent?, Json.exponentSign, Json.digits?_run hne hrun hstops]
  | @minus run hne hrun =>
    simp [Json.exponent?, Json.exponentSign, Json.minus, Json.digits?_run hne hrun hstops]

/-- A number is the literal of a number in data, with its sign. -/
theorem number?_chars (h : s.Says d) (negative : Bool) {rest : List Char} (hrest : Json.Ends rest) :
    Json.number? ((if negative then ['-'] else []) ++ (s.chars ++ rest)) =
      some ((if negative then ['-'] else []) ++ s.chars, rest) := by
  have hminus : Json.minus ((if negative then ['-'] else []) ++ (s.chars ++ rest)) =
      (if negative then ['-'] else [], s.chars ++ rest) := by
    obtain ⟨c, more, hchars, hdigit⟩ := h.head
    rw [hchars]
    cases negative with
    | true => rfl
    | false => exact Json.minus_of_isDigit hdigit (more ++ rest)
  have hwhole : ∀ tail, Digits.Stops tail → Json.whole? (s.whole ++ tail) = some (s.whole, tail) := by
    intro tail htail
    rcases h.whole with hzero | ⟨c, more, hcons, hc, hdigits⟩
    · rw [hzero]
      rfl
    · have hrun := Json.digits?_run h.whole_ne_nil hdigits htail
      rw [hcons, List.cons_append] at hrun ⊢
      simpa [Json.whole?, hc] using hrun
  have hexponent := h.exponent.exponent?_append hrest
  have hstops := h.exponent.stops hrest.stops
  rw [Json.number?, hminus]
  rcases s.tail_cases rest with ⟨hnone, hchars⟩ | ⟨hsome, hchars⟩
  · have hfraction : Json.fraction? (s.exponent ++ rest) = some ([], s.exponent ++ rest) := by
      refine Json.fraction?_of_ends fun c hc => ?_
      rcases h.exponent.nil_or_cons with hnil | ⟨more, hcons⟩
      · rw [hnil] at hc
        exact (hrest c hc).2.1
      · rw [hcons] at hc
        cases hc
        decide
    rw [hchars]
    simp [hwhole _ hstops, hfraction, hexponent, chars, hnone]
  · have hfraction : Json.fraction? ('.' :: (s.fraction ++ (s.exponent ++ rest))) =
        some ('.' :: s.fraction, s.exponent ++ rest) := by
      rw [Json.fraction?, Json.digits?_run hsome h.fraction hstops]
      rfl
    have hpoint := hwhole _ (Digits.stops_cons (c := '.') rfl (s.fraction ++ (s.exponent ++ rest)))
    rw [hchars]
    simp [hpoint, hfraction, hexponent, chars, hsome]

/-! ## §3 Layouts -/

theorem exponentText_says (style : NumeralStyle) (e : Int) : ExponentText (style.exponentText e) e := by
  have hdigits := Digits.isDigit_of_mem_ofNat e.natAbs
  have hne := Digits.ofNat_ne_nil e.natAbs
  have hvalue := Digits.value_ofNat e.natAbs
  unfold NumeralStyle.exponentText
  dsimp only
  split
  · have he : e = -(Digits.value (Digits.ofNat e.natAbs) : Int) := by omega
    nth_rewrite 2 [he]
    exact .minus hne hdigits
  · have he : e = (Digits.value (Digits.ofNat e.natAbs) : Int) := by omega
    split
    · nth_rewrite 2 [he]
      exact .plus hne hdigits
    · nth_rewrite 2 [he]
      exact .positive hne hdigits

/-- The digits of a decimal other than zero, and how many of them stand before its point. -/
structure DigitsOf (d : Decimal) (digits : List Char) : Prop where
  head : ∃ c rest, digits = c :: rest ∧ c ≠ '0'
  isDigit : ∀ c ∈ digits, c.isDigit = true
  value : Digits.value digits = d.significand
  magnitude : d.magnitude = digits.length + d.exponent

theorem digitsOf_significand (hd : d.significand ≠ 0) : DigitsOf d (Digits.ofNat d.significand) := by
  refine ⟨?_, Digits.isDigit_of_mem_ofNat _, Digits.value_ofNat _, ?_⟩
  · rcases Digits.ofNat_cases d.significand with hzero | ⟨c, rest, hdigits, hc, -⟩
    · refine absurd ?_ hd
      rw [← Digits.value_ofNat d.significand, hzero]
      rfl
    · exact ⟨c, rest, hdigits, hc⟩
  · rw [Decimal.magnitude, Digits.count, if_neg hd]

variable {digits : List Char}

/-- Zeros stand between the point and the digits. -/
theorem DigitsOf.says_behind (h : DigitsOf d digits) (hk : d.magnitude ≤ 0) :
    Says ⟨['0'], List.replicate (-d.magnitude).toNat '0' ++ digits, []⟩ d := by
  have hmagnitude := h.magnitude
  refine ⟨.inl rfl, ?_, ?_, ?_⟩
  · intro c hc
    rcases List.mem_append.1 hc with hzero | hdigit
    · rw [List.eq_of_mem_replicate hzero]
      rfl
    · exact h.isDigit c hdigit
  · have hexponent : d.exponent + (List.replicate (-d.magnitude).toNat '0' ++ digits).length = 0 := by
      rw [List.length_append, List.length_replicate]
      omega
    dsimp only
    rw [hexponent]
    exact .none
  · have hzeros : ['0'] ++ (List.replicate (-d.magnitude).toNat '0' ++ digits) =
        List.replicate ((-d.magnitude).toNat + 1) '0' ++ digits := rfl
    dsimp only
    rw [hzeros, Digits.value_zeros_append, h.value]

/-- Zeros stand between the digits and the point, and one behind it. -/
theorem DigitsOf.says_before (h : DigitsOf d digits) (hk : digits.length ≤ d.magnitude.toNat) :
    ∃ e, Says ⟨digits ++ List.replicate (d.magnitude.toNat - digits.length) '0', ['0'], []⟩ e ∧
      e.value = d.value := by
  obtain ⟨c, rest, hdigits, hc⟩ := h.head
  have hmagnitude := h.magnitude
  have hpos : 0 < digits.length := by simp [hdigits]
  have hone : (-1 : Int) + (['0'] : List Char).length = 0 := rfl
  refine ⟨⟨d.significand * 10 ^ (d.magnitude.toNat - digits.length) * 10, -1⟩,
    ⟨.inr ?_, by simp, hone ▸ .none, ?_⟩, ?_⟩
  · refine ⟨c, rest ++ List.replicate (d.magnitude.toNat - digits.length) '0', by simp [hdigits], hc, ?_⟩
    intro d' hd'
    rcases List.mem_append.1 hd' with hdigit | hzero
    · exact h.isDigit d' hdigit
    · rw [List.eq_of_mem_replicate hzero]
      rfl
  · have hlast : Digits.digit '0' = 0 := rfl
    dsimp only
    rw [Digits.value_append_digit, Digits.value_append_zeros, h.value, hlast, Nat.add_zero, Nat.mul_comm]
  · obtain ⟨zeros, hzeros⟩ : ∃ zeros, d.magnitude.toNat - digits.length = zeros := ⟨_, rfl⟩
    have hexponent : d.exponent = zeros := by omega
    rw [hzeros, Decimal.value, Decimal.value, hexponent, zpow_natCast, zpow_neg_one]
    push_cast
    field_simp

/-- The point stands within the digits. -/
theorem DigitsOf.says_within (h : DigitsOf d digits) (hk : 0 < d.magnitude)
    (hlength : d.magnitude.toNat < digits.length) :
    Says ⟨digits.take d.magnitude.toNat, digits.drop d.magnitude.toNat, []⟩ d := by
  obtain ⟨c, rest, hdigits, hc⟩ := h.head
  have hmagnitude := h.magnitude
  obtain ⟨k, hk⟩ : ∃ k, d.magnitude.toNat = k + 1 := ⟨d.magnitude.toNat - 1, by omega⟩
  refine ⟨.inr ⟨c, rest.take k, by rw [hk, hdigits]; rfl, hc, ?_⟩, ?_, ?_, ?_⟩
  · exact fun d' hd' => h.isDigit d' (List.mem_of_mem_take hd')
  · exact fun d' hd' => h.isDigit d' (List.mem_of_mem_drop hd')
  · have hexponent : d.exponent + (digits.drop d.magnitude.toNat).length = 0 := by
      rw [List.length_drop]
      omega
    dsimp only
    rw [hexponent]
    exact .none
  · dsimp only
    rw [List.take_append_drop, h.value]

/-- The point stands behind the first digit, and an exponent behind the last one. -/
theorem DigitsOf.says_scientific (style : NumeralStyle) {c : Char} {rest : List Char}
    (h : DigitsOf d (c :: rest)) : Says ⟨[c], rest, style.exponentText (d.magnitude - 1)⟩ d := by
  have hmagnitude := h.magnitude
  have hexponent : d.magnitude - 1 = d.exponent + rest.length := by
    rw [List.length_cons] at hmagnitude
    omega
  obtain ⟨hfirst, hrest⟩ := List.forall_mem_cons.1 h.isDigit
  refine ⟨?_, hrest, ?_, h.value⟩
  · obtain ⟨c', rest', hcons, hc⟩ := h.head
    cases hcons
    exact .inr ⟨c, [], rfl, hc, by simpa using hfirst⟩
  · dsimp only
    rw [← hexponent]
    exact exponentText_says style _

theorem chars_of_fraction {whole fraction exponent : List Char} (h : fraction ≠ []) :
    chars ⟨whole, fraction, exponent⟩ = whole ++ '.' :: (fraction ++ exponent) := by
  simp [chars, h]

/-- A layout is the text of a decimal that stands for the same number. -/
theorem exists_says_layout (style : NumeralStyle) (hd : d.significand ≠ 0) :
    ∃ s e, style.layout d = chars s ∧ s.Says e ∧ e.value = d.value := by
  have h := digitsOf_significand hd
  unfold NumeralStyle.layout
  dsimp only
  generalize Digits.ofNat d.significand = digits at *
  obtain ⟨c, rest, hdigits, -⟩ := h.head
  split
  · split
    · rename_i hk
      refine ⟨_, d, ?_, h.says_behind hk, rfl⟩
      rw [chars_of_fraction (List.append_ne_nil_of_right_ne_nil _ (by simp [hdigits])), List.append_nil]
      rfl
    · split
      · rename_i hlength
        obtain ⟨e, hsays, hvalue⟩ := h.says_before hlength
        refine ⟨_, e, ?_, hsays, hvalue⟩
        rw [chars_of_fraction (List.cons_ne_nil _ _)]
        rfl
      · rename_i hk hlength
        refine ⟨_, d, ?_, h.says_within (by omega) (by omega), rfl⟩
        have hback : digits.drop d.magnitude.toNat ≠ [] := by
          rw [ne_eq, List.drop_eq_nil_iff]
          exact hlength
        rw [chars_of_fraction hback, List.append_nil]
  · split
    · cases hdigits
    · exact ⟨_, d, rfl, h.says_scientific style, rfl⟩
    · rename_i hrest
      refine ⟨_, d, ?_, h.says_scientific style, rfl⟩
      rw [chars_of_fraction hrest]
      rfl

end Spelling

end Crossover.Numeric
