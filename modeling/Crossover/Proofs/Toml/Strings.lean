/-
Crossover.Proofs.Toml.Strings — a string is read back from whichever form it was written in.

A string on one line is written and read character by character. A string over several lines is not: the
reader takes all quotes in a row at once, and the writer escapes each third of them, so that a run of
quotes is only understood where it ends. `Spelled` describes such a text in one pass, with the number of
quotes in a row as its state; `Spelled.read_eq` is the induction along it, for quotes and apostrophes alike.

  §1 Escapes       — a character that was written as an escape.
  §2 One line      — strings between quotes and between apostrophes.
  §3 Several lines — runs of quotes.
  §4 Forms         — a string in the form that the writer chooses.
-/
import Mathlib
import Crossover.Toml.Scalar
import Crossover.Toml.Writer

namespace Crossover.Toml

/-! ## §1 Escapes -/

theorem hexDigit?_hexDigit : ∀ n < 16, Json.hexDigit? (hexDigit n) = some n := by decide

/-- Two hexadecimal digits are enough for a control character. -/
theorem escape?_unicode {c : Char} (h : c.toNat < 256) (rest : List Char) :
    escape? ('u' :: '0' :: '0' :: hexDigit (c.toNat / 16) :: hexDigit (c.toNat % 16) :: rest) =
      some (c, rest) := by
  have hhigh := hexDigit?_hexDigit (c.toNat / 16) (by omega)
  have hlow := hexDigit?_hexDigit (c.toNat % 16) (by omega)
  have hzero : Json.hexDigit? '0' = some 0 := rfl
  have hvalue : hexValue? ['0', '0', hexDigit (c.toNat / 16), hexDigit (c.toNat % 16)] =
      some c.toNat := by
    simp only [hexValue?, List.foldlM_cons, List.foldlM_nil, hzero, hhigh, hlow, Option.map_some,
      Option.bind_eq_bind, Option.bind_some, Option.pure_def, Option.some.injEq]
    omega
  have hchar : charOf? c.toNat = some c := by
    rw [charOf?, if_pos (.inl (by omega)), Char.ofNat_toNat]
  simp [escape?, hexEscape?, hvalue, hchar]

/-- A control character is one of ASCII. -/
theorem toNat_lt_of_isControl {c : Char} (h : isControl c = true) : c.toNat < 256 := by
  simp only [isControl, Bool.or_eq_true, Bool.and_eq_true, decide_eq_true_eq] at h
  omega

theorem isPlain_of_not_isControl {c : Char} (h : isControl c = false) (hbreak : c ≠ '\n') :
    isPlain c = true := by
  by_cases htab : c = '\t'
  · simp [isPlain, htab]
  · simp only [isControl, htab, hbreak, ne_eq, not_false_eq_true, decide_true, Bool.and_true,
      Bool.or_eq_false_iff, decide_eq_false_iff_not] at h
    simp only [isPlain, Bool.or_eq_true, Bool.and_eq_true, decide_eq_true_eq]
    omega

/-- A character that is not a quote is written as an escape, or stands for itself. -/
theorem escaped_cases (severalLines : Bool) (c : Char) :
    (∃ code, escaped severalLines c = '\\' :: code ∧
      ∀ rest, escape? (code ++ rest) = some (c, rest)) ∨
    (escaped severalLines c = [c] ∧ c ≠ '\\' ∧
      (isPlain c = true ∨ severalLines = true ∧ c = '\n')) := by
  unfold escaped
  split
  · rename_i h
    exact .inl ⟨['b'], rfl, fun rest => by rw [h]; rfl⟩
  split
  · rename_i h
    exact .inl ⟨['t'], rfl, fun rest => by rw [h]; rfl⟩
  split
  · rename_i h
    cases severalLines with
    | false => exact .inl ⟨['n'], rfl, fun rest => by rw [h]; rfl⟩
    | true => exact .inr ⟨by rw [h]; rfl, by rw [h]; decide, .inr ⟨rfl, h⟩⟩
  split
  · rename_i h
    exact .inl ⟨['f'], rfl, fun rest => by rw [h]; rfl⟩
  split
  · rename_i h
    exact .inl ⟨['r'], rfl, fun rest => by rw [h]; rfl⟩
  split
  · rename_i h
    exact .inl ⟨['\\'], rfl, fun rest => by rw [h]; rfl⟩
  split
  · rename_i h
    exact .inl ⟨_, rfl, fun rest => escape?_unicode (toNat_lt_of_isControl h) rest⟩
  · rename_i hbreak _ _ hbackslash hcontrol
    exact .inr ⟨rfl, hbackslash,
      .inl (isPlain_of_not_isControl (Bool.eq_false_iff.2 hcontrol) hbreak)⟩

/-- No escape starts with a quote. -/
theorem escaped_eq_cons (severalLines : Bool) {c : Char} (hquote : c ≠ '"') :
    ∃ d more, escaped severalLines c = d :: more ∧ d ≠ '"' := by
  rcases escaped_cases severalLines c with ⟨code, hcode, -⟩ | ⟨hself, -⟩
  · exact ⟨_, code, hcode, by decide⟩
  · exact ⟨c, [], hself, hquote⟩

/-! ## §2 One line -/

/-- What a reader finds in front of a text. -/
def prepend (own : List Char) : Option (List Char × List Char) → Option (List Char × List Char) :=
  Option.map fun (text, left) => (own ++ text, left)

theorem prepend_some (own text left : List Char) :
    prepend own (some (text, left)) = some (own ++ text, left) := rfl

/-- A character as it is written between quotes is read as that character, whatever follows it. -/
theorem basic?_character (c : Char) (fuel : Nat) (rest : List Char) :
    basic? (fuel + 1) ((if c = '"' then ['\\', '"'] else escaped false c) ++ rest) =
      prepend [c] (basic? fuel rest) := by
  split
  · rename_i hquote
    rw [hquote]
    rfl
  · rename_i hquote
    rcases escaped_cases false c with ⟨code, hcode, hescape⟩ | ⟨hself, hbackslash, hplain⟩
    · rw [hcode, List.cons_append]
      simp only [basic?, hescape]
      rfl
    · have hplain : isPlain c = true := hplain.resolve_right (by simp)
      rw [hself, List.singleton_append]
      simp only [basic?, if_pos hplain]
      rfl

/-- The inside of a string on one line starts with no quote, and is at least as long as the text. -/
theorem basicChars_cons (c : Char) (cs : List Char) :
    ∃ d more, basicChars (c :: cs) = d :: (more ++ basicChars cs) ∧ d ≠ '"' := by
  unfold basicChars
  rw [List.flatMap_cons]
  split
  · exact ⟨'\\', ['"'], rfl, by decide⟩
  · rename_i hquote
    obtain ⟨d, more, hpiece, hd⟩ := escaped_eq_cons false hquote
    exact ⟨d, more, by rw [hpiece, List.cons_append], hd⟩

theorem length_le_basicChars (cs : List Char) : cs.length ≤ (basicChars cs).length := by
  induction cs with
  | nil => exact Nat.le_refl _
  | cons c cs ih =>
    obtain ⟨d, more, hchars, -⟩ := basicChars_cons c cs
    rw [hchars, List.length_cons, List.length_cons, List.length_append]
    omega

/-- What is written between quotes is read up to the closing one. -/
theorem basic?_basicChars (cs rest : List Char) {fuel : Nat} (hfuel : cs.length < fuel) :
    basic? fuel (basicChars cs ++ '"' :: rest) = some (cs, rest) := by
  induction cs generalizing fuel with
  | nil =>
    obtain ⟨fuel, rfl⟩ := Nat.exists_eq_add_one.2 hfuel
    rfl
  | cons c cs ih =>
    obtain ⟨fuel, rfl⟩ := Nat.exists_eq_add_one.2 (Nat.zero_lt_of_lt hfuel)
    have hrest := ih (Nat.lt_of_succ_lt_succ hfuel)
    unfold basicChars at hrest ⊢
    rw [List.flatMap_cons, List.append_assoc, basic?_character, hrest, prepend_some,
      List.singleton_append]

/-- Between apostrophes everything stands for itself. -/
theorem literal?_append {cs : List Char} (hplain : ∀ c ∈ cs, isPlain c = true)
    (hmark : '\'' ∉ cs) (rest : List Char) : literal? (cs ++ '\'' :: rest) = some (cs, rest) := by
  induction cs with
  | nil => rfl
  | cons c cs ih =>
    obtain ⟨hc, hcs⟩ := List.forall_mem_cons.1 hplain
    have hne : c ≠ '\'' := fun heq => hmark (heq ▸ List.mem_cons_self)
    have hrest := ih hcs fun hmem => hmark (List.mem_cons_of_mem c hmem)
    rw [List.cons_append]
    simp only [literal?, if_pos hc, hrest, Option.map_some]

/-! ## §3 Several lines -/

/-- What a reader of several lines makes of a number of marks in a row: up to two belong to the text, and
three end it. -/
structure ReadsMarks (mark : Char) (read : Nat → List Char → Option (List Char × List Char)) : Prop where
  within : ∀ {fuel run : Nat} {rest : List Char}, 0 < run → run < 3 → rest.head? ≠ some mark →
    read (fuel + 1) (List.replicate run mark ++ rest) =
      prepend (List.replicate run mark) (read fuel rest)
  closing : ∀ {fuel run : Nat} {rest : List Char}, run < 3 → rest.head? ≠ some mark →
    read (fuel + 1) (List.replicate (run + 3) mark ++ rest) = some (List.replicate run mark, rest)

theorem takeWhile_marks {mark : Char} {rest : List Char} (h : rest.head? ≠ some mark) (run : Nat) :
    (List.replicate run mark ++ rest).takeWhile (· = mark) = List.replicate run mark := by
  rw [List.takeWhile_append_of_pos (by simp)]
  cases rest with
  | nil => simp
  | cons c rest =>
    have hc : c ≠ mark := fun heq => h (heq ▸ rfl)
    simp [hc]

theorem quotes?_within {mark : Char} {run : Nat} {rest : List Char} (hrun : run < 3)
    (h : rest.head? ≠ some mark) :
    quotes? mark (List.replicate run mark ++ rest) = some (List.replicate run mark, false, rest) := by
  simp [quotes?, takeWhile_marks h, hrun]

theorem quotes?_closing {mark : Char} {run : Nat} {rest : List Char} (hrun : run < 3)
    (h : rest.head? ≠ some mark) :
    quotes? mark (List.replicate (run + 3) mark ++ rest) =
      some (List.replicate run mark, true, rest) := by
  have hmost : run + 3 ≤ 5 := by omega
  simp [quotes?, takeWhile_marks h, hmost]

/-- A reader that looks at the marks in a row first makes of them what it should. -/
theorem readsMarks_of_quotes? {mark : Char} {read : Nat → List Char → Option (List Char × List Char)}
    (h : ∀ fuel rest, read (fuel + 1) (mark :: rest) =
      match quotes? mark (mark :: rest) with
      | some (own, true, left) => some (own, left)
      | some (own, false, left) => prepend own (read fuel left)
      | none => none) : ReadsMarks mark read where
  within {fuel run rest} hpos hrun hrest := by
    obtain ⟨run, rfl⟩ := Nat.exists_eq_add_one.2 hpos
    have hquotes := quotes?_within hrun hrest
    rw [List.replicate_succ, List.cons_append] at hquotes ⊢
    rw [h, hquotes]
  closing {fuel run rest} hrun hrest := by
    have hquotes := quotes?_closing hrun hrest
    rw [List.replicate_succ, List.cons_append] at hquotes ⊢
    rw [h, hquotes]

theorem readsMarks_basicLines? : ReadsMarks '"' basicLines? :=
  readsMarks_of_quotes? fun _ _ => rfl

theorem readsMarks_literalLines? : ReadsMarks '\'' literalLines? :=
  readsMarks_of_quotes? fun _ _ => rfl

/-- The text `written` stands for `meant` in a string over several lines, `run` marks being in a row
before it. A mark may follow fewer than two others; every other piece starts with no mark and is read as
one character. -/
inductive Spelled (mark : Char) (read : Nat → List Char → Option (List Char × List Char)) :
    Nat → List Char → List Char → Prop where
  | nil (run : Nat) : Spelled mark read run [] []
  | mark {run : Nat} {written meant : List Char} (hrun : run < 2)
      (rest : Spelled mark read (run + 1) written meant) :
      Spelled mark read run (mark :: written) (mark :: meant)
  | piece {run : Nat} {c d : Char} (more : List Char) {written meant : List Char} (hd : d ≠ mark)
      (hread : ∀ fuel rest, read (fuel + 1) (d :: more ++ rest) = prepend [c] (read fuel rest))
      (rest : Spelled mark read 0 written meant) :
      Spelled mark read run (d :: more ++ written) (c :: meant)

namespace Spelled

variable {mark : Char} {read : Nat → List Char → Option (List Char × List Char)} {run : Nat}
  {written meant : List Char}

theorem length_le (h : Spelled mark read run written meant) : meant.length ≤ written.length := by
  induction h with
  | nil => exact Nat.le_refl _
  | mark _ _ ih => exact Nat.succ_le_succ ih
  | piece _ _ _ ih =>
    simp only [List.length_cons, List.length_append]
    omega

/-- A text that stands for another one is read as it, up to the three marks behind it. The marks in a row
before it are read together with those at its head. -/
theorem read_eq (hmarks : ReadsMarks mark read) (h : Spelled mark read run written meant) (hrun : run < 3)
    {rest : List Char} (hrest : rest.head? ≠ some mark) (fuel : Nat) (hfuel : run + meant.length < fuel) :
    read fuel (List.replicate run mark ++ (written ++ (List.replicate 3 mark ++ rest))) =
      some (List.replicate run mark ++ meant, rest) := by
  induction h generalizing fuel with
  | nil run =>
    obtain ⟨fuel, rfl⟩ := Nat.exists_eq_add_one.2 (Nat.zero_lt_of_lt hfuel)
    rw [List.nil_append, ← List.append_assoc, List.replicate_append_replicate, hmarks.closing hrun hrest,
      List.append_nil]
  | @mark run written meant hless _ ih =>
    have hmore := ih (by omega) fuel (by simp only [List.length_cons] at hfuel; omega)
    simpa only [List.replicate_succ', List.append_assoc, List.cons_append, List.nil_append] using hmore
  | @piece run c d more written meant hd hread _ ih =>
    -- The marks before a piece are complete, and are read by themselves.
    have hpiece : ∀ {fuel}, meant.length + 1 < fuel →
        read fuel (d :: more ++ written ++ (List.replicate 3 mark ++ rest)) =
          some (c :: meant, rest) := by
      intro fuel hfuel
      obtain ⟨fuel, rfl⟩ := Nat.exists_eq_add_one.2 (Nat.zero_lt_of_lt hfuel)
      have hmore := ih (by decide) fuel (by omega)
      rw [List.replicate_zero, List.nil_append, List.nil_append] at hmore
      rw [List.append_assoc, hread, hmore, prepend_some, List.singleton_append]
    have hlength : (c :: meant).length = meant.length + 1 := rfl
    by_cases hzero : run = 0
    · subst hzero
      exact hpiece (by omega)
    · obtain ⟨fuel, rfl⟩ := Nat.exists_eq_add_one.2 (Nat.zero_lt_of_lt hfuel)
      have hhead : (d :: more ++ written ++ (List.replicate 3 mark ++ rest)).head? ≠ some mark := by
        simpa using hd
      rw [hmarks.within (by omega) hrun hhead, hpiece (by omega), prepend_some]

end Spelled

/-- A backslash is not followed by a line break where it is followed by an escape. -/
theorem joinedLine?_of_escape? {cs : List Char} {r : Char × List Char} (h : escape? cs = some r) :
    joinedLine? cs = none := by
  unfold escape? at h
  split at h <;> first | rfl | cases h

theorem lineBreak?_of_isPlain {c : Char} (h : isPlain c = true) (rest : List Char) :
    lineBreak? (c :: rest) = none := by
  have hfeed : c ≠ '\n' := by
    rintro rfl
    simp [isPlain] at h
  have hreturn : c ≠ '\r' := by
    rintro rfl
    simp [isPlain] at h
  unfold lineBreak?
  split
  · rename_i heq
    exact absurd (List.cons.inj heq).1 hfeed
  · rename_i heq
    exact absurd (List.cons.inj heq).1 hreturn
  · rfl

/-- Plain characters and line breaks stand for themselves between triple quotes. -/
theorem basicLines?_self {c : Char} (hquote : c ≠ '"') (hbackslash : c ≠ '\\')
    (h : isPlain c = true ∨ c = '\n') (fuel : Nat) (rest : List Char) :
    basicLines? (fuel + 1) (c :: rest) = prepend [c] (basicLines? fuel rest) := by
  rcases h with hplain | rfl
  · have hbreak := lineBreak?_of_isPlain hplain rest
    simp [basicLines?, hquote, hbackslash, hbreak, hplain, prepend]
  · rfl

/-- Plain characters and line breaks stand for themselves between triple apostrophes. -/
theorem literalLines?_self {c : Char} (hmark : c ≠ '\'') (h : isPlain c = true ∨ c = '\n')
    (fuel : Nat) (rest : List Char) :
    literalLines? (fuel + 1) (c :: rest) = prepend [c] (literalLines? fuel rest) := by
  rcases h with hplain | rfl
  · have hbreak := lineBreak?_of_isPlain hplain rest
    simp [literalLines?, hmark, hbreak, hplain, prepend]
  · rfl

/-- A character other than a quote, as it is written between triple quotes, is read as that character. -/
theorem basicLines?_escaped {c : Char} (hquote : c ≠ '"') (fuel : Nat) (rest : List Char) :
    basicLines? (fuel + 1) (escaped true c ++ rest) = prepend [c] (basicLines? fuel rest) := by
  rcases escaped_cases true c with ⟨code, hcode, hescape⟩ | ⟨hself, hbackslash, hplain⟩
  · have hline := joinedLine?_of_escape? (hescape rest)
    rw [hcode, List.cons_append]
    simp only [basicLines?, hline, hescape]
    rfl
  · rw [hself, List.singleton_append]
    exact basicLines?_self hquote hbackslash (hplain.imp_right And.right) fuel rest

/-- What is written between triple quotes stands for the text. -/
theorem spelled_basicLinesChars (cs : List Char) (run : Nat) (hrun : run < 3) :
    Spelled '"' basicLines? run (basicLinesChars run cs) cs := by
  induction cs generalizing run with
  | nil => exact .nil run
  | cons c cs ih =>
    rw [basicLinesChars]
    split
    · rename_i hquote
      rw [hquote]
      split
      · exact .piece ['"'] (by decide) (fun _ _ => rfl) (ih 0 (by decide))
      · exact .mark (by omega) (ih _ (by omega))
    · rename_i hquote
      have hread := basicLines?_escaped hquote
      obtain ⟨d, more, hpiece, hd⟩ := escaped_eq_cons true hquote
      rw [hpiece] at hread ⊢
      exact .piece more hd hread (ih 0 (by decide))

theorem hasTriple_cons {mark : Char} {cs : List Char} (h : hasTriple mark cs = true) (c : Char) :
    hasTriple mark (c :: cs) = true := by
  match cs, h with
  | _ :: _ :: _, h =>
    rw [hasTriple, h, Bool.or_true]

theorem hasTriple_append {mark : Char} {cs : List Char} (h : hasTriple mark cs = true) (front : List Char) :
    hasTriple mark (front ++ cs) = true := by
  induction front with
  | nil => exact h
  | cons c front ih => exact hasTriple_cons ih c

/-- A text of plain characters and line breaks without three marks in a row stands for itself. -/
theorem spelled_self {cs : List Char} (hplain : ∀ c ∈ cs, isPlain c = true ∨ c = '\n') (run : Nat)
    (htriple : hasTriple '\'' (List.replicate run '\'' ++ cs) = false) :
    Spelled '\'' literalLines? run cs cs := by
  induction cs generalizing run with
  | nil => exact .nil run
  | cons c cs ih =>
    obtain ⟨hc, hcs⟩ := List.forall_mem_cons.1 hplain
    by_cases hmark : c = '\''
    · subst hmark
      have hmore : hasTriple '\'' (List.replicate (run + 1) '\'' ++ cs) = false := by
        rw [List.replicate_succ', List.append_assoc]
        exact htriple
      refine .mark (Nat.lt_of_not_le fun hlong => ?_) (ih hcs _ hmore)
      have hthree : hasTriple '\'' ('\'' :: '\'' :: '\'' :: cs) = true := by simp [hasTriple]
      obtain ⟨front, rfl⟩ := Nat.exists_eq_add_of_le' hlong
      rw [List.replicate_add, List.append_assoc] at htriple
      exact Bool.eq_false_iff.1 htriple (hasTriple_append hthree _)
    · have hrest : hasTriple '\'' (List.replicate 0 '\'' ++ cs) = false := by
        refine Bool.eq_false_iff.2 fun h => Bool.eq_false_iff.1 htriple ?_
        exact hasTriple_append (hasTriple_cons h c) _
      exact .piece [] hmark (literalLines?_self hmark hc) (ih hcs 0 hrest)

/-! ## §4 Forms -/

theorem isPlain_or_break {cs : List Char} (h : cs.any isControl = false) :
    ∀ c ∈ cs, isPlain c = true ∨ c = '\n' := by
  intro c hc
  have hcontrol : isControl c = false := by
    rw [List.any_eq_false] at h
    exact Bool.eq_false_iff.2 (h c hc)
  by_cases hbreak : c = '\n'
  · exact .inr hbreak
  · exact .inl (isPlain_of_not_isControl hcontrol hbreak)

/-- Between apostrophes on one line there are plain characters only, and no apostrophe. -/
theorem of_eq_literal {cs : List Char} (h : StringForm.of cs = .literal) :
    (∀ c ∈ cs, isPlain c = true) ∧ '\'' ∉ cs := by
  unfold StringForm.of at h
  dsimp only at h
  split at h
  · cases h
  split at h
  · rename_i hform
    simp only [Bool.and_eq_true, Bool.not_eq_true', List.contains_eq_mem, decide_eq_false_iff_not]
      at hform
    obtain ⟨⟨hclean, hmark⟩, hbreak⟩ := hform
    refine ⟨fun c hc => (isPlain_or_break hclean c hc).resolve_right ?_, hmark⟩
    exact fun heq => hbreak (heq ▸ hc)
  · repeat' split at h
    all_goals cases h

/-- Between triple apostrophes there are plain characters and line breaks only, and no three apostrophes
in a row. -/
theorem of_eq_literalLines {cs : List Char} (h : StringForm.of cs = .literalLines) :
    (∀ c ∈ cs, isPlain c = true ∨ c = '\n') ∧ hasTriple '\'' cs = false := by
  unfold StringForm.of at h
  dsimp only at h
  split at h
  · cases h
  split at h
  · cases h
  split at h
  · cases h
  split at h
  · rename_i hform
    simp only [Bool.and_eq_true, Bool.not_eq_true'] at hform
    exact ⟨isPlain_or_break hform.1, hform.2⟩
  · split at h
    all_goals cases h

/-- The line break that opens a string over several lines is skipped, and no other one. -/
theorem skipLineBreak_opening {cs text : List Char} (h : '\n' ∉ cs → lineBreak? text = none) :
    skipLineBreak (opening cs ++ text) = text := by
  unfold opening
  by_cases hbreak : '\n' ∈ cs
  · rw [if_pos (List.contains_iff_mem.2 hbreak)]
    rfl
  · rw [if_neg (mt List.contains_iff_mem.1 hbreak), List.nil_append, skipLineBreak, h hbreak]
    rfl

/-- A text in triple quotes starts with a line break only if it has one. -/
theorem lineBreak?_basicLinesChars {cs : List Char} (h : '\n' ∉ cs) (rest : List Char) :
    lineBreak? (basicLinesChars 0 cs ++ '"' :: rest) = none := by
  cases cs with
  | nil => rfl
  | cons c cs =>
    rw [basicLinesChars]
    split
    · rfl
    · rcases escaped_cases true c with ⟨code, hcode, -⟩ | ⟨hself, -, hplain⟩
      · rw [hcode]
        rfl
      · have hplain : isPlain c = true :=
          hplain.resolve_right fun heq => h (heq.2 ▸ List.mem_cons_self)
        rw [hself]
        exact lineBreak?_of_isPlain hplain _

/-- A text between apostrophes starts with a line break only if it has one. -/
theorem lineBreak?_literalLines {cs : List Char} (hplain : ∀ c ∈ cs, isPlain c = true ∨ c = '\n')
    (h : '\n' ∉ cs) (rest : List Char) : lineBreak? (cs ++ '\'' :: rest) = none := by
  cases cs with
  | nil => rfl
  | cons c cs =>
    obtain ⟨hc, -⟩ := List.forall_mem_cons.1 hplain
    have hc : isPlain c = true := hc.resolve_right fun heq => h (heq ▸ List.mem_cons_self)
    exact lineBreak?_of_isPlain hc _

/-- No quote or apostrophe goes on with a string at the head of a text. -/
def Unquoted (cs : List Char) : Prop :=
  cs.head? ≠ some '"' ∧ cs.head? ≠ some '\''

/-- A quote that is not the first of three opens a string on one line. -/
theorem string?_quote {cs : List Char} (h : ∀ more, cs ≠ '"' :: '"' :: more) :
    string? ('"' :: cs) = basic? (cs.length + 1) cs := by
  simp only [string?]

/-- An apostrophe that is not the first of three opens a string on one line. -/
theorem string?_apostrophe {cs : List Char} (h : ∀ more, cs ≠ '\'' :: '\'' :: more) :
    string? ('\'' :: cs) = literal? cs := by
  simp only [string?]

/-- A text that stands for another one is read as it by a reader that has fuel for each character, and
skips the line break in front of it. -/
theorem Spelled.read_opening {mark : Char} {read : Nat → List Char → Option (List Char × List Char)}
    {written cs rest : List Char} (hmarks : ReadsMarks mark read)
    (h : Spelled mark read 0 written cs) (hrest : rest.head? ≠ some mark)
    (hbreak : '\n' ∉ cs → lineBreak? (written ++ (mark :: mark :: mark :: rest)) = none) :
    read ((opening cs ++ (written ++ (mark :: mark :: mark :: rest))).length + 1)
        (skipLineBreak (opening cs ++ (written ++ (mark :: mark :: mark :: rest)))) =
      some (cs, rest) := by
  have hlength := h.length_le
  rw [skipLineBreak_opening hbreak]
  refine h.read_eq hmarks (by decide) hrest _ ?_
  simp only [List.length_append]
  omega

/-- A string is read back in whichever form it was written. -/
theorem string?_stringChars (cs : List Char) {rest : List Char} (h : Unquoted rest) :
    string? (stringChars cs ++ rest) = some (cs, rest) := by
  unfold stringChars
  cases hform : StringForm.of cs with
  | basic =>
    have hopen : ∀ more, basicChars cs ++ '"' :: rest ≠ '"' :: '"' :: more := by
      intro more heq
      cases cs with
      | nil => exact h.1 (by rw [(List.cons.inj heq).2]; rfl)
      | cons c cs =>
        obtain ⟨d, front, hchars, hd⟩ := basicChars_cons c cs
        rw [hchars] at heq
        exact hd (List.cons.inj heq).1
    have hlength := length_le_basicChars cs
    simp only [List.cons_append, List.append_assoc, List.nil_append]
    rw [string?_quote hopen, basic?_basicChars]
    rw [List.length_append]
    omega
  | literal =>
    obtain ⟨hplain, hmark⟩ := of_eq_literal hform
    have hopen : ∀ more, cs ++ '\'' :: rest ≠ '\'' :: '\'' :: more := by
      intro more heq
      cases cs with
      | nil => exact h.2 (by rw [(List.cons.inj heq).2]; rfl)
      | cons c cs => exact hmark ((List.cons.inj heq).1 ▸ List.mem_cons_self)
    simp only [List.cons_append, List.append_assoc, List.nil_append]
    rw [string?_apostrophe hopen, literal?_append hplain hmark]
  | basicLines =>
    have hspelled := spelled_basicLinesChars cs 0 (by decide)
    simp only [List.cons_append, List.append_assoc, List.nil_append]
    exact hspelled.read_opening readsMarks_basicLines? h.1 fun hbreak =>
      lineBreak?_basicLinesChars hbreak _
  | literalLines =>
    obtain ⟨hplain, htriple⟩ := of_eq_literalLines hform
    have hspelled := spelled_self hplain 0 htriple
    simp only [List.cons_append, List.append_assoc, List.nil_append]
    exact hspelled.read_opening readsMarks_literalLines? h.2 fun hbreak =>
      lineBreak?_literalLines hplain hbreak _

end Crossover.Toml
