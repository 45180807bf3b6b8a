/-
Crossover.Proofs.Json.Compact — values that are written without space are read back.

What stands in quotes is read character by character: each is written as itself or as an escape, and is
read as one piece that stands for it (`pieces?_escaped`). A value is read whatever ends it (`Readable`):
strings and numbers are, and so are arrays of values that are. Numbers need an end, as another digit would
belong to them.

  §1 Strings — texts in quotes.
  §2 Numbers — natural numbers.
  §3 Values  — values with something behind them, and values alone.
-/
import Crossover.Json.Reader
import Crossover.Json.Writer
import Crossover.Proofs.Text.Digits

namespace Crossover.Json

open Crossover.Text

/-! ## §1 Strings -/

theorem hexDigit?_hexChar : ∀ n < 16, hexDigit? (hexChar n) = some n := by decide

/-- Two digits behind two zeros are the unit that they were written for. -/
theorem hexUnit?_hexChar {n : Nat} (h : n < 256) :
    hexUnit? '0' '0' (hexChar (n / 16)) (hexChar (n % 16)) = some n := by
  have hzero : hexDigit? '0' = some 0 := rfl
  have hhigh := hexDigit?_hexChar (n / 16) (by omega)
  have hlow := hexDigit?_hexChar (n % 16) (by omega)
  have hvalue : ((0 * 16 + 0) * 16 + n / 16) * 16 + n % 16 = n := by omega
  simp only [hexUnit?, hzero, hhigh, hlow, Option.bind_eq_bind, Option.bind_some, Option.pure_def, hvalue]

/-- A unit below the surrogates is a character by itself. -/
theorem assemble?_unit {n : Nat} (h : n < 0xD800) (ps : List Piece) :
    assemble? (.unit n :: ps) = (assemble? ps).map (Char.ofNat n :: ·) := by
  have hlone : ¬ (0xD800 ≤ n ∧ n < 0xE000) := by omega
  have hhigh : ¬ (0xD800 ≤ n ∧ n < 0xDC00) := by omega
  have hlow : ¬ (0xDC00 ≤ n ∧ n < 0xE000) := by omega
  cases ps with
  | nil => simp [assemble?, hlone]
  | cons p ps =>
    cases p with
    | char c => simp [assemble?, hlone]
    | unit low => simp [assemble?, hhigh, hlow]

/-- A character is written as a short escape, as the escape of its unit, or as itself. -/
theorem escaped_cases (c : Char) :
    (∃ e, escaped c = ['\\', e] ∧ e ≠ 'u' ∧ shortEscape? e = some c) ∨
    (escaped c = ['\\', 'u', '0', '0', hexChar (c.toNat / 16), hexChar (c.toNat % 16)] ∧ c.toNat < 32) ∨
    (escaped c = [c] ∧ c ≠ '"' ∧ c ≠ '\\' ∧ ¬ c.toNat < 32) := by
  generalize hchars : escaped c = chars
  unfold escaped at hchars
  iterate 7
    split at hchars
    · rename_i h
      exact .inl ⟨_, hchars.symm, by decide, by rw [h]; rfl⟩
  split at hchars
  · rename_i h
    exact .inr (.inl ⟨hchars.symm, h⟩)
  · rename_i hquote hbackslash _ _ _ _ _ hcontrol
    exact .inr (.inr ⟨hchars.symm, hquote, hbackslash, hcontrol⟩)

/-- A character is read as one piece, and this stands for the character. -/
theorem pieces?_escaped (c : Char) :
    ∃ p : Piece,
      (∀ rest, pieces? (escaped c ++ rest) = (pieces? rest).map fun (ps, left) => (p :: ps, left)) ∧
      ∀ ps, assemble? (p :: ps) = (assemble? ps).map (c :: ·) := by
  rcases escaped_cases c with ⟨e, hchars, hunit, hshort⟩ | ⟨hchars, hcontrol⟩ |
    ⟨hchars, hquote, hback, hcontrol⟩
  · refine ⟨.char c, fun rest => ?_, fun _ => rfl⟩
    rw [hchars, List.cons_append, List.singleton_append]
    simp [pieces?, hunit, hshort]
  · refine ⟨.unit c.toNat, fun rest => ?_, fun ps => ?_⟩
    · have hread := hexUnit?_hexChar (n := c.toNat) (by omega)
      rw [hchars]
      simp [pieces?, hread]
    · rw [assemble?_unit (by omega), Char.ofNat_toNat]
  · refine ⟨.char c, fun rest => ?_, fun _ => rfl⟩
    rw [hchars, List.singleton_append]
    simp [pieces?, hback, hcontrol]

/-- A text in quotes is read as pieces that stand for it. -/
theorem pieces?_quoted (cs rest : List Char) :
    ∃ ps, pieces? (cs.flatMap escaped ++ '"' :: rest) = some (ps, rest) ∧ assemble? ps = some cs := by
  induction cs with
  | nil => exact ⟨[], by simp [pieces?], rfl⟩
  | cons c cs ih =>
    obtain ⟨ps, hps, hcs⟩ := ih
    obtain ⟨p, hread, hp⟩ := pieces?_escaped c
    refine ⟨p :: ps, ?_, ?_⟩
    · rw [List.flatMap_cons, List.append_assoc, hread, hps]
      rfl
    · rw [hp, hcs]
      rfl

theorem scalar?_quoted (text : String) (rest : List Char) :
    scalar? (quoted text ++ rest) = some (.string text, rest) := by
  obtain ⟨ps, hps, htext⟩ := pieces?_quoted text.toList rest
  simp only [quoted, List.cons_append, List.append_assoc, List.nil_append, scalar?, hps, Option.map_some,
    htext, String.ofList_toList]

/-! ## §2 Numbers -/

/-- No number goes on at the head of a text. -/
def Ends (cs : List Char) : Prop :=
  ∀ c ∈ cs.head?, c.isDigit = false ∧ c ≠ '.' ∧ c ≠ 'e' ∧ c ≠ 'E'

theorem ends_nil : Ends [] := nofun

theorem ends_cons {c : Char} (h : c.isDigit = false ∧ c ≠ '.' ∧ c ≠ 'e' ∧ c ≠ 'E') (rest : List Char) :
    Ends (c :: rest) := by
  intro d hd
  cases hd
  exact h

theorem Ends.stops {cs : List Char} (h : Ends cs) : Digits.Stops cs := fun c hc => (h c hc).1

/-- A digit is no sign. -/
theorem minus_of_isDigit {c : Char} (hc : c.isDigit = true) (rest : List Char) :
    minus (c :: rest) = ([], c :: rest) := by
  have hminus : c ≠ '-' := ne_of_class hc rfl
  simp [minus, hminus]

theorem digits?_run {run rest : List Char} (hne : run ≠ []) (hrun : ∀ c ∈ run, c.isDigit = true)
    (hrest : Digits.Stops rest) : digits? (run ++ rest) = some (run, rest) := by
  rw [digits?, Digits.takeAll_run hrun hrest]
  simp [hne]

/-- No fraction goes on where a number ends. -/
theorem fraction?_of_ends {rest : List Char} (h : ∀ c ∈ rest.head?, c ≠ '.') : fraction? rest = some ([], rest) := by
  cases rest with
  | nil => rfl
  | cons c rest =>
    have hpoint : c ≠ '.' := h c rfl
    simp [fraction?, hpoint]

theorem exponent?_of_ends {rest : List Char} (h : Ends rest) : exponent? rest = some ([], rest) := by
  cases rest with
  | nil => rfl
  | cons c rest =>
    obtain ⟨-, -, he, hE⟩ := h c rfl
    simp [exponent?, he, hE]

/-- A natural number is the literal of a number. -/
theorem number?_ofNat (n : Nat) {rest : List Char} (h : Ends rest) :
    number? (Digits.ofNat n ++ rest) = some (Digits.ofNat n, rest) := by
  have hfraction : fraction? rest = some ([], rest) := fraction?_of_ends fun c hc => (h c hc).2.1
  have hexponent := exponent?_of_ends h
  rcases Digits.ofNat_cases n with hzero | ⟨c, more, hchars, hc, hdigit⟩
  · rw [hzero, List.singleton_append]
    simp [number?, minus, whole?, hfraction, hexponent]
  · have hrun := digits?_run (Digits.ofNat_ne_nil n) (Digits.isDigit_of_mem_ofNat n) h.stops
    rw [hchars, List.cons_append] at hrun ⊢
    simp [number?, minus_of_isDigit hdigit, whole?, hc, hrun, hfraction, hexponent]

/-- The first character of a literal is a minus sign or a digit, and no other. -/
theorem ne_of_literal {c d : Char} (hc : c = '-' ∨ c.isDigit = true) (hminus : d ≠ '-')
    (hdigit : d.isDigit = false) : c ≠ d := by
  rcases hc with rfl | hc
  · exact hminus.symm
  · exact ne_of_class hc hdigit

/-- What starts with a sign or a digit is neither a text nor a word. -/
theorem scalar?_number {c : Char} {cs : List Char} (hc : c = '-' ∨ c.isDigit = true) :
    scalar? (c :: cs) = (number? (c :: cs)).map fun (literal, left) => (.number (String.ofList literal), left) := by
  have hquote : c ≠ '"' := ne_of_literal hc (by decide) rfl
  have hnull : 'n' ≠ c := (ne_of_literal hc (by decide) rfl).symm
  have htrue : 't' ≠ c := (ne_of_literal hc (by decide) rfl).symm
  have hfalse : 'f' ≠ c := (ne_of_literal hc (by decide) rfl).symm
  simp [scalar?, List.isPrefixOf?, hquote, hnull, htrue, hfalse]

/-! ## §3 Values -/

/-- A value is read from its text without space, whatever ends it, if there is fuel for twice its
length. The text starts with a token, which does not close an array. -/
structure Readable (v : Json) : Prop where
  head : ∃ c more, v.compactChars = c :: more ∧ isSpace c = false ∧ c ≠ ']'
  read : ∀ fuel rest, 2 * v.compactChars.length ≤ fuel → Ends rest →
    value? (fuel + 1) (v.compactChars ++ rest) = some (v, rest)

theorem skipSpace_cons {c : Char} (h : isSpace c = false) (rest : List Char) :
    skipSpace (c :: rest) = c :: rest := by
  simp [skipSpace, h]

theorem value?_of_scalar? {c : Char} {cs : List Char} (hspace : isSpace c = false) (hbracket : c ≠ '[')
    (hbrace : c ≠ '\x7b') (fuel : Nat) : value? (fuel + 1) (c :: cs) = scalar? (c :: cs) := by
  simp [value?, skipSpace_cons hspace, hbracket, hbrace]

theorem readable_string (text : String) : Readable (.string text) := by
  refine ⟨⟨'"', _, rfl, rfl, by decide⟩, fun fuel rest _ _ => ?_⟩
  have hscalar := scalar?_quoted text rest
  rw [compactChars]
  rw [quoted, List.cons_append, List.cons_append] at hscalar ⊢
  rw [value?_of_scalar? rfl (by decide) (by decide), hscalar]

theorem readable_null : Readable .null := by
  refine ⟨⟨'n', _, rfl, rfl, by decide⟩, fun fuel rest _ _ => ?_⟩
  have hchars : (null.compactChars ++ rest) = 'n' :: 'u' :: 'l' :: 'l' :: rest := rfl
  rw [hchars, value?_of_scalar? rfl (by decide) (by decide)]
  simp [scalar?, List.isPrefixOf?]

/-- A literal is read as a number if it is one whatever ends it. -/
theorem readable_number {c : Char} {cs : List Char} (hc : c = '-' ∨ c.isDigit = true)
    (h : ∀ rest, Ends rest → number? (c :: cs ++ rest) = some (c :: cs, rest)) :
    Readable (.number (String.ofList (c :: cs))) := by
  have hchars : (number (String.ofList (c :: cs))).compactChars = c :: cs := by
    rw [compactChars, String.toList_ofList]
  have hspace : isSpace c = false := by
    simp [isSpace, ne_of_literal hc]
  refine ⟨⟨c, cs, hchars, hspace, ne_of_literal hc (by decide) rfl⟩, fun fuel rest _ hrest => ?_⟩
  have hnumber := h rest hrest
  rw [hchars]
  rw [List.cons_append] at hnumber ⊢
  rw [value?_of_scalar? hspace (ne_of_literal hc (by decide) rfl) (ne_of_literal hc (by decide) rfl),
    scalar?_number hc, hnumber]
  rfl

theorem readable_ofNat (n : Nat) : Readable (.ofNat n) := by
  have hnumber := fun rest (hrest : Ends rest) => number?_ofNat n hrest
  have hdigits := Digits.isDigit_of_mem_ofNat n
  rw [ofNat, Digits.text]
  obtain ⟨c, more, hcons⟩ := List.exists_cons_of_ne_nil (Digits.ofNat_ne_nil n)
  rw [hcons] at hnumber hdigits ⊢
  exact readable_number (.inr (hdigits c List.mem_cons_self)) hnumber

theorem compactItems_cons (v w : Json) (vs : List Json) :
    compactItems (v :: w :: vs) = v.compactChars ++ ',' :: compactItems (w :: vs) := rfl

/-- The items of an array are read up to its closing bracket. -/
theorem items?_compactItems {v : Json} {vs : List Json} (h : ∀ w ∈ v :: vs, Readable w) (rest : List Char)
    (fuel : Nat) (hfuel : 2 * (compactItems (v :: vs)).length + 2 ≤ fuel) :
    items? fuel (compactItems (v :: vs) ++ ']' :: rest) = some (v :: vs, rest) := by
  induction vs generalizing v fuel with
  | nil =>
    obtain ⟨fuel, rfl⟩ := Nat.exists_eq_add_of_le' (Nat.le_of_add_left_le hfuel)
    have hv := (h v List.mem_cons_self).read fuel (']' :: rest)
    rw [compactItems] at hfuel ⊢
    rw [items?, hv (by omega) (ends_cons (by decide) rest)]
    rfl
  | cons w vs ih =>
    obtain ⟨fuel, rfl⟩ := Nat.exists_eq_add_of_le' (Nat.le_of_add_left_le hfuel)
    obtain ⟨hv, hvs⟩ := List.forall_mem_cons.1 h
    rw [compactItems_cons, List.length_append, List.length_cons] at hfuel
    have hmore := ih hvs (fuel + 1) (by omega)
    rw [compactItems_cons, List.append_assoc, List.cons_append, items?,
      hv.read fuel _ (by omega) (ends_cons (by decide) _)]
    simp [skipSpace_cons, isSpace, hmore]

theorem head_compactItems {v : Json} (h : Readable v) (vs : List Json) :
    ∃ c more, compactItems (v :: vs) = c :: more ∧ isSpace c = false ∧ c ≠ ']' := by
  obtain ⟨c, more, hchars, hc⟩ := h.head
  cases vs with
  | nil => exact ⟨c, more, hchars, hc⟩
  | cons w vs => exact ⟨c, _, by rw [compactItems_cons, hchars]; rfl, hc⟩

theorem readable_array {vs : List Json} (h : ∀ v ∈ vs, Readable v) : Readable (.array vs) := by
  refine ⟨⟨'[', _, rfl, rfl, by decide⟩, fun fuel rest hfuel _ => ?_⟩
  have hchars : (array vs).compactChars ++ rest = '[' :: (compactItems vs ++ ']' :: rest) := by
    simp [compactChars]
  have hlength : (array vs).compactChars.length = (compactItems vs).length + 2 := by
    simp [compactChars]
  rw [hchars]
  cases vs with
  | nil => rfl
  | cons v vs =>
    obtain ⟨c, more, hitems, hspace, hbracket⟩ := head_compactItems (h v List.mem_cons_self) vs
    have hread := items?_compactItems h rest fuel (by omega)
    rw [hitems, List.cons_append] at hread ⊢
    rw [value?, skipSpace_cons rfl]
    simp [skipSpace_cons hspace, hbracket, hread]

/-- A value that is read whatever ends it is read back from its text alone. -/
theorem Readable.read?_compact {v : Json} (h : Readable v) : read? v.compact = some v := by
  have hread := h.read (2 * v.compactChars.length) [] (Nat.le_refl _) ends_nil
  rw [List.append_nil] at hread
  rw [read?, compact, String.toList_ofList]
  simp [hread, skipSpace]

end Crossover.Json
