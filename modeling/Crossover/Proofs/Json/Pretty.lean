/-
Crossover.Proofs.Json.Pretty — values that are laid out on many lines are read back.

White space in front of a token does not matter to any of the scanners (`value?_skipSpace`), so line ends and
indents between items fall away. What remains is as in a text without space: a value is read whatever ends it
(`Laid`), at whatever level it stands, if the values in it are. A value without parts has one text in both layouts,
so it is taken over from there (`laid_of_readable`).

  §1 Space   — line ends and indents.
  §2 Arrays  — items, one a line.
  §3 Objects — names and values, one pair a line.
-/
import Crossover.Proofs.Json.Compact

namespace Crossover.Json

open Crossover.Text

/-! ## §1 Space -/

theorem skipSpace_skipSpace (cs : List Char) : skipSpace (skipSpace cs) = skipSpace cs :=
  List.dropWhile_idempotent isSpace cs

theorem skipSpace_append {front : List Char} (h : ∀ c ∈ front, isSpace c = true) (rest : List Char) :
    skipSpace (front ++ rest) = skipSpace rest :=
  List.dropWhile_append_of_pos h

theorem isSpace_of_mem_newline (level : Nat) : ∀ c ∈ newline level, isSpace c = true := by
  intro c hc
  rcases List.mem_cons.1 hc with rfl | hspace
  · rfl
  · rw [List.eq_of_mem_replicate hspace]
    rfl

theorem skipSpace_newline (level : Nat) (rest : List Char) : skipSpace (newline level ++ rest) = skipSpace rest :=
  skipSpace_append (isSpace_of_mem_newline level) rest

theorem value?_skipSpace (fuel : Nat) (cs : List Char) : value? fuel (skipSpace cs) = value? fuel cs := by
  cases fuel with
  | zero => rfl
  | succ fuel => rw [value?, value?, skipSpace_skipSpace]

theorem items?_skipSpace (fuel : Nat) (cs : List Char) : items? fuel (skipSpace cs) = items? fuel cs := by
  cases fuel with
  | zero => rfl
  | succ fuel => rw [items?, items?, value?_skipSpace]

theorem members?_skipSpace (fuel : Nat) (cs : List Char) : members? fuel (skipSpace cs) = members? fuel cs := by
  cases fuel with
  | zero => rfl
  | succ fuel => rw [members?, members?, skipSpace_skipSpace]

/-- Where a line ends, so does a number. -/
theorem ends_newline (level : Nat) (rest : List Char) : Ends (newline level ++ rest) :=
  ends_cons (by decide) _

/-! ## §2 Arrays -/

/-- A value is read from its text of many lines, at every level and whatever ends it, if there is fuel for twice
its length. -/
structure Laid (v : Json) : Prop where
  head : ∀ level, ∃ c more, v.prettyChars level = c :: more ∧ isSpace c = false ∧ c ≠ ']'
  read : ∀ level fuel rest, 2 * (v.prettyChars level).length ≤ fuel → Ends rest →
    value? (fuel + 1) (v.prettyChars level ++ rest) = some (v, rest)

/-- A value that has no parts has one text. -/
theorem laid_of_readable {v : Json} (hchars : ∀ level, v.prettyChars level = v.compactChars) (h : Readable v) :
    Laid v := by
  refine ⟨fun level => ?_, fun level => ?_⟩
  · rw [hchars]
    exact h.head
  · rw [hchars]
    exact h.read

theorem laid_string (text : String) : Laid (.string text) :=
  laid_of_readable (fun _ => rfl) (readable_string text)

theorem laid_null : Laid .null :=
  laid_of_readable (fun _ => rfl) readable_null

theorem laid_number {c : Char} {cs : List Char} (hc : c = '-' ∨ c.isDigit = true)
    (h : ∀ rest, Ends rest → number? (c :: cs ++ rest) = some (c :: cs, rest)) :
    Laid (.number (String.ofList (c :: cs))) :=
  laid_of_readable (fun _ => rfl) (readable_number hc h)

theorem laid_ofNat (n : Nat) : Laid (.ofNat n) :=
  laid_of_readable (fun _ => rfl) (readable_ofNat n)

theorem Laid.read_line {v : Json} (h : Laid v) (level fuel : Nat) {rest : List Char}
    (hfuel : 2 * (v.prettyChars level).length < fuel) (hrest : Ends rest) :
    value? fuel (newline level ++ (v.prettyChars level ++ rest)) = some (v, rest) := by
  obtain ⟨fuel, rfl⟩ := Nat.exists_eq_succ_of_ne_zero (Nat.ne_of_gt (Nat.zero_lt_of_lt hfuel))
  rw [← value?_skipSpace, skipSpace_newline, value?_skipSpace]
  exact h.read level fuel rest (Nat.lt_succ_iff.1 hfuel) hrest

theorem prettyItems_cons (level : Nat) (v w : Json) (vs : List Json) :
    prettyItems level (v :: w :: vs) =
      newline level ++ v.prettyChars level ++ ',' :: prettyItems level (w :: vs) := rfl

/-- The items of an array are read up to its closing bracket. -/
theorem items?_prettyItems {v : Json} {vs : List Json} (h : ∀ w ∈ v :: vs, Laid w) (level outer : Nat)
    (rest : List Char) (fuel : Nat) (hfuel : 2 * (prettyItems level (v :: vs)).length + 2 ≤ fuel) :
    items? fuel (prettyItems level (v :: vs) ++ (newline outer ++ ']' :: rest)) = some (v :: vs, rest) := by
  induction vs generalizing v fuel with
  | nil =>
    obtain ⟨fuel, rfl⟩ := Nat.exists_eq_add_of_le' (Nat.le_of_add_left_le hfuel)
    rw [prettyItems] at hfuel ⊢
    rw [List.length_append] at hfuel
    have hv := (h v List.mem_cons_self).read_line level (fuel + 1) (by omega)
      (ends_newline outer (']' :: rest))
    rw [items?, List.append_assoc, hv]
    simp [skipSpace_newline, skipSpace_cons, isSpace]
  | cons w vs ih =>
    obtain ⟨fuel, rfl⟩ := Nat.exists_eq_add_of_le' (Nat.le_of_add_left_le hfuel)
    obtain ⟨hv, hvs⟩ := List.forall_mem_cons.1 h
    rw [prettyItems_cons, List.length_append, List.length_append, List.length_cons] at hfuel
    have hmore := ih hvs (fuel + 1) (by omega)
    have hcomma : Ends (',' :: (prettyItems level (w :: vs) ++ (newline outer ++ ']' :: rest))) :=
      ends_cons (by decide) _
    have hline := hv.read_line level (fuel + 1) (by omega) hcomma
    rw [prettyItems_cons, List.append_assoc, List.append_assoc, List.cons_append, items?, hline]
    simp [skipSpace_cons, isSpace, hmore]

/-- The first item starts with a token, which does not close the array. -/
theorem skipSpace_prettyItems {v : Json} (h : Laid v) (level : Nat) (vs : List Json) (rest : List Char) :
    ∃ c more, skipSpace (prettyItems level (v :: vs) ++ rest) = c :: more ∧ c ≠ ']' := by
  obtain ⟨c, more, hchars, hspace, hbracket⟩ := h.head level
  have hskip : ∀ tail, skipSpace (newline level ++ (v.prettyChars level ++ tail)) = c :: (more ++ tail) := by
    intro tail
    rw [skipSpace_newline, hchars, List.cons_append, skipSpace_cons hspace]
  cases vs with
  | nil => exact ⟨c, _, by rw [prettyItems, List.append_assoc, hskip], hbracket⟩
  | cons w vs => exact ⟨c, _, by rw [prettyItems_cons, List.append_assoc, List.append_assoc, hskip], hbracket⟩

theorem laid_array {vs : List Json} (h : ∀ v ∈ vs, Laid v) : Laid (.array vs) := by
  cases vs with
  | nil => exact laid_of_readable (fun _ => rfl) (readable_array (by simp))
  | cons v vs =>
    refine ⟨fun level => ⟨'[', _, rfl, rfl, by decide⟩, fun level fuel rest hfuel _ => ?_⟩
    have hchars : (array (v :: vs)).prettyChars level =
        '[' :: (prettyItems (level + 1) (v :: vs) ++ (newline level ++ [']'])) := by
      simp [prettyChars]
    rw [hchars, List.length_cons, List.length_append] at hfuel
    have hread := items?_prettyItems h (level + 1) level rest fuel (by omega)
    obtain ⟨c, more, hskip, hbracket⟩ := skipSpace_prettyItems (h v List.mem_cons_self) (level + 1) vs
      (newline level ++ ']' :: rest)
    rw [← items?_skipSpace, hskip] at hread
    rw [hchars, List.cons_append, List.append_assoc, List.append_assoc, List.singleton_append, value?,
      skipSpace_cons rfl]
    simp [hskip, hbracket, hread]

/-! ## §3 Objects -/

/-- Members whose names are texts make an object. -/
theorem ofMembers_some (ms : List (String × Json)) :
    ofMembers (ms.map fun m => (some m.1, m.2)) = .object ms := by
  have hnames : (ms.map fun m => (some m.1, m.2)).mapM
      (fun (m : Option String × Json) => m.1.map (·, m.2)) = some ms := by
    induction ms with
    | nil => rfl
    | cons m ms ih =>
      rw [List.map_cons, List.mapM_cons, ih]
      rfl
  unfold ofMembers
  rw [hnames]

theorem prettyMembers_cons (level : Nat) (name : String) (v : Json) (m : String × Json)
    (ms : List (String × Json)) :
    prettyMembers level ((name, v) :: m :: ms) =
      newline level ++ quoted name ++ [':', ' '] ++ v.prettyChars level ++ ',' :: prettyMembers level (m :: ms) := rfl

/-- A member is read up to the end of its value, and is the last one or not. -/
theorem members?_line {v : Json} (h : Laid v) (level fuel : Nat) (name : String) {rest : List Char}
    (hfuel : 2 * (v.prettyChars level).length < fuel) (hrest : Ends rest) :
    (∀ left, skipSpace rest = '\x7d' :: left →
      members? (fuel + 1) (newline level ++ quoted name ++ [':', ' '] ++ v.prettyChars level ++ rest) =
        some ([(some name, v)], left)) ∧
    ∀ next, skipSpace rest = ',' :: next →
      members? (fuel + 1) (newline level ++ quoted name ++ [':', ' '] ++ v.prettyChars level ++ rest) =
        (members? fuel next).map fun (ms, left) => ((some name, v) :: ms, left) := by
  obtain ⟨ps, hps, hname⟩ := pieces?_quoted name.toList (':' :: ' ' :: (v.prettyChars level ++ rest))
  have hcolon : ∀ tail, skipSpace (':' :: tail) = ':' :: tail := skipSpace_cons rfl
  have hvalue : value? fuel (' ' :: (v.prettyChars level ++ rest)) = some (v, rest) := by
    obtain ⟨fuel, rfl⟩ := Nat.exists_eq_succ_of_ne_zero (Nat.ne_of_gt (Nat.zero_lt_of_lt hfuel))
    have hspace : skipSpace (' ' :: (v.prettyChars level ++ rest)) = skipSpace (v.prettyChars level ++ rest) := rfl
    rw [← value?_skipSpace, hspace, value?_skipSpace]
    exact h.read level fuel rest (Nat.lt_succ_iff.1 hfuel) hrest
  have hchars : newline level ++ quoted name ++ [':', ' '] ++ v.prettyChars level ++ rest = newline level ++
      ('"' :: (name.toList.flatMap escaped ++ '"' :: ':' :: ' ' :: (v.prettyChars level ++ rest))) := by
    simp [quoted]
  rw [hchars, ← members?_skipSpace, skipSpace_newline, skipSpace_cons rfl, members?, skipSpace_cons rfl]
  simp only [hps, hname, hcolon, hvalue, Option.map_some, String.ofList_toList]
  exact ⟨fun left hleft => by simp [hleft], fun next hnext => by simp [hnext]⟩

/-- The members of an object are read up to its closing brace. -/
theorem members?_prettyMembers {m : String × Json} {ms : List (String × Json)} (h : ∀ p ∈ m :: ms, Laid p.2)
    (level outer : Nat) (rest : List Char) (fuel : Nat)
    (hfuel : 2 * (prettyMembers level (m :: ms)).length + 2 ≤ fuel) :
    members? fuel (prettyMembers level (m :: ms) ++ (newline outer ++ '\x7d' :: rest)) =
      some ((m :: ms).map fun p => (some p.1, p.2), rest) := by
  induction ms generalizing m fuel with
  | nil =>
    obtain ⟨name, v⟩ := m
    obtain ⟨fuel, rfl⟩ := Nat.exists_eq_add_of_le' (Nat.le_of_add_left_le hfuel)
    rw [prettyMembers] at hfuel ⊢
    simp only [List.length_append] at hfuel
    refine (members?_line (h _ List.mem_cons_self) level (fuel + 1) name (by dsimp only; omega)
      (ends_newline outer _)).1 rest ?_
    rw [skipSpace_newline, skipSpace_cons rfl]
  | cons n ms ih =>
    obtain ⟨name, v⟩ := m
    obtain ⟨fuel, rfl⟩ := Nat.exists_eq_add_of_le' (Nat.le_of_add_left_le hfuel)
    obtain ⟨hv, hms⟩ := List.forall_mem_cons.1 h
    rw [prettyMembers_cons] at hfuel ⊢
    simp only [List.length_append, List.length_cons] at hfuel
    have hmore := ih hms (fuel + 1) (by omega)
    have hcomma : Ends (',' :: (prettyMembers level (n :: ms) ++ (newline outer ++ '\x7d' :: rest))) :=
      ends_cons (by decide) _
    rw [List.append_assoc, List.cons_append,
      (members?_line hv level (fuel + 1) name (by dsimp only; omega) hcomma).2 _ (skipSpace_cons rfl _), hmore]
    rfl

theorem laid_object {ms : List (String × Json)} (h : ∀ m ∈ ms, Laid m.2) : Laid (.object ms) := by
  refine ⟨fun level => ?_, fun level fuel rest hfuel _ => ?_⟩
  · cases ms with
    | nil => exact ⟨'\x7b', _, rfl, rfl, by decide⟩
    | cons m ms => exact ⟨'\x7b', _, rfl, rfl, by decide⟩
  · cases ms with
    | nil => rfl
    | cons m ms =>
      have hchars : (object (m :: ms)).prettyChars level =
          '\x7b' :: (prettyMembers (level + 1) (m :: ms) ++ (newline level ++ ['\x7d'])) := by
        simp [prettyChars]
      rw [hchars, List.length_cons, List.length_append] at hfuel
      have hread := members?_prettyMembers h (level + 1) level rest fuel (by omega)
      obtain ⟨more, hskip⟩ : ∃ more, skipSpace (prettyMembers (level + 1) (m :: ms) ++
          (newline level ++ '\x7d' :: rest)) = '"' :: more := by
        obtain ⟨name, v⟩ := m
        cases ms with
        | nil => exact ⟨_, by simp only [prettyMembers, List.append_assoc, skipSpace_newline]; rfl⟩
        | cons n ms => exact ⟨_, by simp only [prettyMembers_cons, List.append_assoc, skipSpace_newline]; rfl⟩
      have hmembers := ofMembers_some (m :: ms)
      rw [← members?_skipSpace, hskip] at hread
      rw [hchars, List.cons_append, List.append_assoc, List.append_assoc, List.singleton_append, value?,
        skipSpace_cons rfl]
      simpa [hskip, hread] using hmembers

/-- A value that is laid out is read back from its text alone. -/
theorem Laid.read?_pretty {v : Json} (h : Laid v) : read? v.pretty = some v := by
  have hread := h.read 0 (2 * (v.prettyChars 0).length) [] (Nat.le_refl _) ends_nil
  rw [List.append_nil] at hread
  rw [read?, pretty, String.toList_ofList]
  simp [hread, skipSpace]

end Crossover.Json
