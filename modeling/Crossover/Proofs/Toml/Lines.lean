/-
Crossover.Proofs.Toml.Lines — texts that are written line by line are read line by line.

A line is read with whatever follows it (`ReadsLine`), and a text of such lines is read as a whole
(`Reads`, `Reads.lines?_eq`). So a written text is cut into its lines, and each is looked at by itself:
a header, a blank line, or a member whose value is read up to the end of the line (`ReadsValue`). Strings
were settled before; a number is a word of digits, which could also be the beginning of a date, a time of
day or a float, and is none of these.

  §1 Numbers — a number among the words of TOML.
  §2 Values  — values up to the end of a line.
  §3 Keys    — names that need no quotes.
  §4 Lines   — one line, and texts of several.
-/
import Crossover.Proofs.Text.Digits
import Crossover.Proofs.Toml.Strings
import Crossover.Toml.Reader

namespace Crossover.Toml

open Crossover.Text Crossover.Numeric

/-! ## §1 Numbers -/

section Digits

variable {cs : List Char} (h : ∀ c ∈ cs, c.isDigit = true)

include h

theorem ne_of_digits {other : List Char} (hother : ∃ c ∈ other, c.isDigit = false) : cs ≠ other := by
  rintro rfl
  obtain ⟨c, hc, hdigit⟩ := hother
  rw [h c hc] at hdigit
  cases hdigit

/-- No mark follows a number where there are digits only. -/
theorem after?_number? {least most n : Nat} {mark : Char} (hmark : mark.isDigit = false)
    {rest : List Char} (hread : Item.number? least most cs = some (n, rest)) :
    after? mark rest = none := by
  unfold Item.number? Digits.takeAtMost at hread
  dsimp only at hread
  split at hread
  · cases hread
  · obtain ⟨-, rfl⟩ := Prod.mk.inj (Option.some.inj hread)
    cases hrest : cs.drop ((cs.take most).takeWhile Char.isDigit).length with
    | nil => rfl
    | cons c more =>
      have hc : c.isDigit = true := h c (List.mem_of_mem_drop (hrest ▸ List.mem_cons_self))
      exact if_neg (ne_of_class hc hmark)

theorem date?_of_digits : date? cs = none := by
  unfold date?
  cases hyear : Item.number? 4 4 cs with
  | none => rfl
  | some r =>
    have hmark : after? '-' r.2 = none := after?_number? h rfl hyear
    simp [hmark]

theorem clock?_of_digits : clock? cs = none := by
  unfold clock? twoDigits?
  cases hhour : Item.number? 2 2 cs with
  | none => rfl
  | some r =>
    have hmark : after? ':' r.2 = none := after?_number? h rfl hhour
    by_cases hsmall : r.1 < 24
    · simp [hsmall, hmark]
    · simp [hsmall]

theorem isMoment_of_digits : isMoment cs = false := by
  simp [isMoment, date?_of_digits h, clock?_of_digits h]

theorem sign_of_digits : Numeral.sign cs = (false, cs) := by
  cases cs with
  | nil => rfl
  | cons c rest =>
    have hc := h c List.mem_cons_self
    simp [Numeral.sign, ne_of_class hc]

/-- Digits alone are no float: it takes a point or an exponent. -/
theorem isFloat_of_digits : isFloat cs = false := by
  have hwhole : cs.takeWhile (fun c => c.isDigit || c = '_') = cs := by
    refine List.takeWhile_eq_self_iff.2 fun c hc => ?_
    simp [h c hc]
  simp [isFloat, sign_of_digits h, hwhole, isExponent]

theorem float?_of_digits : float? cs = none := by
  have hinf : cs ≠ "inf".toList := ne_of_digits h ⟨'i', by decide, rfl⟩
  have hnan : cs ≠ "nan".toList := ne_of_digits h ⟨'n', by decide, rfl⟩
  simp only [float?, sign_of_digits h, if_neg hinf, if_neg hnan, isFloat_of_digits h]
  rfl

theorem underscore_notMem_digits : '_' ∉ cs := by
  intro hmem
  cases h '_' hmem

theorem isRun_of_digits (hne : cs ≠ []) : isRun Char.isDigit cs = true := by
  rw [isRun, List.splitOn_eq_singleton (underscore_notMem_digits h)]
  simpa [hne] using h

theorem withoutUnderscores_of_digits : withoutUnderscores cs = cs := by
  refine List.filter_eq_self.2 fun c hc => decide_eq_true ?_
  rintro rfl
  exact underscore_notMem_digits h hc

/-- A word of digits ends where the line ends. -/
theorem word_of_digits (rest : List Char) : word (cs ++ '\n' :: rest) = (cs, '\n' :: rest) := by
  have hrun : (cs ++ '\n' :: rest).takeWhile isWordChar = cs := by
    rw [List.takeWhile_append_of_pos fun c hc => by simp [isWordChar, Char.isAlphanum, h c hc]]
    simp [isWordChar]
  simp [word, hrun]

end Digits

theorem isDecimal_ofNat (n : Nat) : isDecimal (Digits.ofNat n) = true := by
  have hrun := isRun_of_digits (Digits.isDigit_of_mem_ofNat n) (Digits.ofNat_ne_nil n)
  rcases Digits.ofNat_cases n with hzero | ⟨c, rest, hchars, hc, -⟩
  · rw [hzero]
    rfl
  · rw [hchars] at hrun ⊢
    simpa [isDecimal, hc] using hrun

theorem integer?_ofNat {n : Nat} (h : n ≤ greatest) :
    integer? (Digits.ofNat n) = some (.integer n) := by
  have hdigits := Digits.isDigit_of_mem_ofNat n
  -- The letter of another base would be one of the digits.
  have hbase : ∀ c rest, c.isDigit = false → Digits.ofNat n ≠ '0' :: c :: rest := by
    intro c rest hc
    exact ne_of_digits hdigits ⟨c, by simp, hc⟩
  have hrange : inRange? n = some (.integer n) := by
    unfold greatest at h
    exact if_pos (by omega)
  unfold integer?
  split
  · rename_i heq
    exact absurd heq (hbase 'x' _ rfl)
  · rename_i heq
    exact absurd heq (hbase 'o' _ rfl)
  · rename_i heq
    exact absurd heq (hbase 'b' _ rfl)
  · simp only [sign_of_digits hdigits, isDecimal_ofNat, if_pos, withoutUnderscores_of_digits hdigits,
      Digits.value_ofNat, Bool.false_eq_true, if_false, hrange]

/-- A number that is not too large is read from its digits. -/
theorem scalar?_ofNat {n : Nat} (h : n ≤ greatest) :
    scalar? (Digits.ofNat n) = some (.integer n) := by
  have hdigits := Digits.isDigit_of_mem_ofNat n
  have htrue : Digits.ofNat n ≠ "true".toList := ne_of_digits hdigits ⟨'t', by decide, rfl⟩
  have hfalse : Digits.ofNat n ≠ "false".toList := ne_of_digits hdigits ⟨'f', by decide, rfl⟩
  simp only [scalar?, if_neg htrue, if_neg hfalse, isMoment_of_digits hdigits, float?_of_digits hdigits,
    integer?_ofNat h]
  rfl

/-! ## §2 Values -/

/-- A value is read up to the end of its line, at any depth, and no space is in front of it. -/
def ReadsValue (chars : List Char) (v : Toml) : Prop :=
  (∀ c ∈ chars.head?, isSpace c = false) ∧
    ∀ fuel depth rest, value? (fuel + 1) depth (chars ++ '\n' :: rest) = some (v, '\n' :: rest)

theorem readsValue_string (text : String) :
    ReadsValue (stringChars text.toList) (.string text) := by
  have hread : ∀ rest, string? (stringChars text.toList ++ '\n' :: rest) =
      some (text.toList, '\n' :: rest) := fun rest => string?_stringChars _ ⟨by simp, by simp⟩
  have hhead : (∃ more, stringChars text.toList = '"' :: more) ∨
      ∃ more, stringChars text.toList = '\'' :: more := by
    unfold stringChars
    cases StringForm.of text.toList with
    | basic => exact .inl ⟨_, rfl⟩
    | literal => exact .inr ⟨_, rfl⟩
    | basicLines => exact .inl ⟨_, rfl⟩
    | literalLines => exact .inr ⟨_, rfl⟩
  rcases hhead with ⟨more, hchars⟩ | ⟨more, hchars⟩
  all_goals
    rw [hchars] at hread ⊢
    refine ⟨by simp [isSpace], fun fuel depth rest => ?_⟩
    have hrest := hread rest
    rw [List.cons_append] at hrest ⊢
    simp only [value?, hrest, Option.map_some, String.ofList_toList]

theorem readsValue_ofNat {n : Nat} (h : n ≤ greatest) : ReadsValue (Digits.ofNat n) (.integer n) := by
  have hdigits := Digits.isDigit_of_mem_ofNat n
  have hword := word_of_digits hdigits
  have hscalar := scalar?_ofNat h
  obtain ⟨c, more, hchars⟩ := List.exists_cons_of_ne_nil (Digits.ofNat_ne_nil n)
  have hc : c.isDigit = true := hdigits c (hchars ▸ List.mem_cons_self)
  have hne : ∀ d, d.isDigit = false → c ≠ d := fun d => ne_of_class hc
  refine ⟨?_, fun fuel depth rest => ?_⟩
  · rw [hchars]
    intro d hd
    cases hd
    simp [isSpace, hne]
  · have hrest := hword rest
    rw [hchars, List.cons_append] at hrest ⊢
    rw [hchars] at hscalar
    have h1 := hne '"' rfl
    have h2 := hne '\'' rfl
    have h3 := hne '[' rfl
    have h4 := hne '\x7b' rfl
    simp [value?, h1, h2, h3, h4, hrest, hscalar]

/-! ## §3 Keys -/

/-- A name that is written without quotes. -/
def Bare (name : String) : Prop :=
  name.toList ≠ [] ∧ ∀ c ∈ name.toList, isKeyChar c = true

theorem skipSpace_cons {c : Char} (h : isSpace c = false) (rest : List Char) :
    skipSpace (c :: rest) = c :: rest := by
  simp [skipSpace, h]

/-- A name without quotes starts with no space. -/
theorem isSpace_of_isKeyChar {c : Char} (h : isKeyChar c = true) : isSpace c = false := by
  have hspace : c ≠ ' ' := ne_of_class h rfl
  have htab : c ≠ '\t' := ne_of_class h rfl
  simp [isSpace, hspace, htab]

theorem keyPart?_run {run rest : List Char} (hne : run ≠ []) (hrun : ∀ c ∈ run, isKeyChar c = true)
    (hrest : ∀ c ∈ rest.head?, isKeyChar c = false) :
    keyPart? (run ++ rest) = some (String.ofList run, rest) := by
  obtain ⟨c, more, rfl⟩ := List.exists_cons_of_ne_nil hne
  have hc : isKeyChar c = true := hrun c List.mem_cons_self
  have hquote : c ≠ '"' := ne_of_class hc rfl
  have hmark : c ≠ '\'' := ne_of_class hc rfl
  have htake : (c :: more ++ rest).takeWhile isKeyChar = c :: more := by
    rw [List.takeWhile_append_of_pos hrun]
    cases rest with
    | nil => simp
    | cons d rest => simp [hrest d rfl]
  have hdrop : (c :: more ++ rest).drop (c :: more).length = rest := List.drop_left
  rw [List.cons_append] at *
  simp only [keyPart?, htake, hdrop]
  split
  · rename_i heq
    exact absurd (List.cons.inj heq).1 hquote
  · rename_i heq
    exact absurd (List.cons.inj heq).1 hmark
  · rfl

/-- A name without quotes is a key, unless a point follows it. -/
theorem key?_of_bare {name : String} (h : Bare name) {rest : List Char}
    (hrest : ∀ c ∈ rest.head?, isKeyChar c = false) (hpoint : (skipSpace rest).head? ≠ some '.') :
    key? (name.toList ++ rest) = some (⟨[], name⟩, skipSpace rest) := by
  obtain ⟨c, more, hchars⟩ := List.exists_cons_of_ne_nil h.1
  have hc : isKeyChar c = true := h.2 c (hchars ▸ List.mem_cons_self)
  have hskip : skipSpace (name.toList ++ rest) = name.toList ++ rest := by
    rw [hchars]
    exact skipSpace_cons (isSpace_of_isKeyChar hc) _
  have hparts : keyParts? maxDepth (name.toList ++ rest) = some ([name], skipSpace rest) := by
    rw [maxDepth, keyParts?, hskip, keyPart?_run h.1 h.2 hrest, String.ofList_toList]
    dsimp only
    split
    · rename_i heq
      rw [heq] at hpoint
      exact absurd rfl hpoint
    · rfl
  rw [key?, hparts]
  rfl

/-! ## §4 Lines -/

/-- A text is one line that changes the members read so far, whatever lines come behind it. -/
def ReadsLine (p : Progress) (chars : List Char) (next : Progress) : Prop :=
  chars ≠ [] ∧ ∀ fuel rest, lines? (fuel + 1) p (chars ++ rest) = lines? fuel next rest

/-- A text is some lines that change the members read so far one after the other. -/
inductive Reads : Progress → List Char → Progress → Prop where
  | nil (p : Progress) : Reads p [] p
  | cons {p next final : Progress} {chars more : List Char} (line : ReadsLine p chars next)
      (rest : Reads next more final) : Reads p (chars ++ more) final

/-- A text of lines is read as a whole. Each line takes a unit of fuel, and there are no empty ones. -/
theorem Reads.lines?_eq {p final : Progress} {chars : List Char} (h : Reads p chars final) {fuel : Nat}
    (hfuel : chars.length < fuel) : lines? fuel p chars = some final := by
  induction h generalizing fuel with
  | nil p =>
    obtain ⟨fuel, rfl⟩ := Nat.exists_eq_add_one.2 hfuel
    rfl
  | cons line _ ih =>
    obtain ⟨fuel, rfl⟩ := Nat.exists_eq_add_one.2 (Nat.zero_lt_of_lt hfuel)
    have hlength := List.length_pos_iff.2 line.1
    rw [List.length_append] at hfuel
    rw [line.2, ih (by omega)]

/-- A written text of lines is a table of their members. -/
theorem Reads.read?_eq {final : Progress} {chars : List Char} (h : Reads {} chars final)
    (hmark : chars.head? ≠ some '\ufeff') :
    read? (String.ofList chars) = some (.table .header final.root) := by
  have hlines := h.lines?_eq (Nat.lt_succ_self _)
  unfold read?
  rw [String.toList_ofList]
  dsimp only
  split
  · exact absurd rfl hmark
  · rw [hlines]
    rfl

/-- A line is read if its content is, up to the line break. -/
theorem ReadsLine.of_line? {p next : Progress} {chars : List Char}
    (h : ∀ rest, line? p (chars ++ '\n' :: rest) = some (next, '\n' :: rest)) :
    ReadsLine p (chars ++ ['\n']) next := by
  refine ⟨by simp, fun fuel rest => ?_⟩
  have hline := h rest
  have hend : endOfLine? ('\n' :: rest) = some rest := rfl
  rw [List.append_assoc, List.singleton_append]
  cases hchars : chars ++ '\n' :: rest with
  | nil => simp at hchars
  | cons c more =>
    rw [hchars] at hline
    simp only [lines?, hline, hend]

theorem readsLine_blank (p : Progress) : ReadsLine p ['\n'] p := by
  show ReadsLine p ([] ++ ['\n']) p
  exact .of_line? fun _ => rfl

/-- A header opens its table, and members behind it belong there. -/
theorem readsLine_header {p : Progress} {name : String} (hname : Bare name) {root : Members}
    (h : open? [] name p.root = some root) : ReadsLine p (headerLine name) ⟨root, [name]⟩ := by
  have hline : ∀ rest, line? p ('[' :: name.toList ++ [']'] ++ '\n' :: rest) =
      some (⟨root, [name]⟩, '\n' :: rest) := by
    intro rest
    have hkey : key? (name.toList ++ ']' :: '\n' :: rest) = some (⟨[], name⟩, ']' :: '\n' :: rest) :=
      key?_of_bare hname (by simp [isKeyChar]) (by simp [skipSpace, isSpace])
    have htable : tableLine? p (name.toList ++ ']' :: '\n' :: rest) =
        some (⟨root, [name]⟩, '\n' :: rest) := by
      simp only [tableLine?, hkey, h, Option.map_some, List.nil_append]
    obtain ⟨c, more, hchars⟩ := List.exists_cons_of_ne_nil hname.1
    have hc : isKeyChar c = true := hname.2 c (hchars ▸ List.mem_cons_self)
    have hbracket : c ≠ '[' := ne_of_class hc rfl
    rw [hchars] at htable ⊢
    simpa [line?, skipSpace_cons, isSpace, hbracket] using htable
  have hchars : headerLine name = '[' :: name.toList ++ [']'] ++ ['\n'] := by
    simp [headerLine]
  rw [hchars]
  exact .of_line? hline

theorem line?_of_isKeyChar (p : Progress) {c : Char} (h : isKeyChar c = true) (rest : List Char) :
    line? p (c :: rest) = memberLine? p (c :: rest) := by
  have hcomment : c ≠ '#' := ne_of_class h rfl
  have hfeed : c ≠ '\n' := ne_of_class h rfl
  have hreturn : c ≠ '\r' := ne_of_class h rfl
  have hbracket : c ≠ '[' := ne_of_class h rfl
  simp [line?, skipSpace_cons (isSpace_of_isKeyChar h), hcomment, hfeed, hreturn, hbracket]

/-- A member is set in the table that the last header opened. -/
theorem readsLine_member {p : Progress} {name : String} (hname : Bare name) {chars : List Char} {v : Toml}
    (hv : ReadsValue chars v) {root : Members} (h : setUnder? p.current [] name v p.root = some root) :
    ReadsLine p (name.toList ++ [' ', '=', ' '] ++ chars ++ ['\n']) ⟨root, p.current⟩ := by
  refine .of_line? fun rest => ?_
  have hkey : key? (name.toList ++ ' ' :: '=' :: ' ' :: (chars ++ '\n' :: rest)) =
      some (⟨[], name⟩, '=' :: ' ' :: (chars ++ '\n' :: rest)) :=
    key?_of_bare hname (by simp [isKeyChar]) (by simp [skipSpace, isSpace])
  have hskip : skipSpace (' ' :: (chars ++ '\n' :: rest)) = chars ++ '\n' :: rest := by
    have hspace : skipSpace (' ' :: (chars ++ '\n' :: rest)) = skipSpace (chars ++ '\n' :: rest) := rfl
    rw [hspace]
    cases hchars : chars with
    | nil => rfl
    | cons c more => exact skipSpace_cons (hv.1 c (by rw [hchars]; rfl)) _
  have hvalue : topValue? (chars ++ '\n' :: rest) = some (v, '\n' :: rest) := hv.2 _ _ rest
  have hmember : memberLine? p (name.toList ++ ' ' :: '=' :: ' ' :: (chars ++ '\n' :: rest)) =
      some (⟨root, p.current⟩, '\n' :: rest) := by
    simp only [memberLine?, hkey, hskip, hvalue, h, Option.map_some]
  obtain ⟨c, more, hchars⟩ := List.exists_cons_of_ne_nil hname.1
  have hc : isKeyChar c = true := hname.2 c (hchars ▸ List.mem_cons_self)
  simp only [List.append_assoc, List.cons_append, List.nil_append]
  rw [hchars, List.cons_append] at hmember ⊢
  rw [line?_of_isKeyChar p hc, hmember]

end Crossover.Toml
