/-
Crossover.Proofs.Text.Trimming — what trimming leaves of a text.

Trimming leaves the one part of a text that has nothing but white space around it and none at its own ends
(`trim_eq_iff`); of a text of white space alone that is the empty text.
-/
import Crossover.Proofs.Text.Digits

namespace Crossover.Text

/-- A text with white space around it, as much as there is. -/
structure Framed (cs core : List Char) : Prop where
  around : ∃ front back, cs = front ++ core ++ back ∧ (∀ c ∈ front, isBlank c = true) ∧
    ∀ c ∈ back, isBlank c = true
  first : ∀ c ∈ core.head?, isBlank c = false
  last : ∀ c ∈ core.getLast?, isBlank c = false

/-- White space is skipped up to a character that is none. -/
theorem skipBlanks_append {front rest : List Char} (hfront : ∀ c ∈ front, isBlank c = true)
    (hrest : ∀ c ∈ rest.head?, isBlank c = false) : skipBlanks (front ++ rest) = rest := by
  rw [skipBlanks, List.dropWhile_append_of_pos hfront]
  cases rest with
  | nil => rfl
  | cons c rest => exact skipBlanks_cons (hrest c rfl) rest

theorem exists_skipBlanks (cs : List Char) :
    ∃ front, cs = front ++ skipBlanks cs ∧ (∀ c ∈ front, isBlank c = true) ∧
      ∀ c ∈ (skipBlanks cs).head?, isBlank c = false := by
  refine ⟨cs.takeWhile isBlank, List.takeWhile_append_dropWhile.symm, fun c => List.mem_takeWhile_imp,
    fun c hc => ?_⟩
  have hfirst := List.head?_dropWhile_not isBlank cs
  rw [show cs.dropWhile isBlank = skipBlanks cs from rfl, Option.mem_def.1 hc] at hfirst
  simpa using hfirst

/-- Trimming leaves a text without the white space around it. -/
theorem trim_framed (cs : List Char) : Framed cs (trim cs) := by
  obtain ⟨front, hfront, hblank, hfirst⟩ := exists_skipBlanks cs
  obtain ⟨back, hback, hblankBack, hlast⟩ := exists_skipBlanks (skipBlanks cs).reverse
  have hrest : skipBlanks cs = trim cs ++ back.reverse := by
    rw [trim, ← List.reverse_append, ← hback, List.reverse_reverse]
  refine ⟨⟨front, back.reverse, ?_, hblank, fun c hc => hblankBack c (List.mem_reverse.1 hc)⟩,
    fun c hc => ?_, fun c hc => ?_⟩
  · rw [List.append_assoc, ← hrest]
    exact hfront
  · refine hfirst c ?_
    rw [hrest, List.head?_append, Option.mem_def.1 hc]
    rfl
  · rw [trim, List.getLast?_reverse] at hc
    exact hlast c hc

/-- **Trimming leaves the one part** of a text that has white space around it and none at its ends. -/
theorem trim_eq_iff {cs core : List Char} : trim cs = core ↔ Framed cs core := by
  constructor
  · rintro rfl
    exact trim_framed cs
  · rintro ⟨⟨front, back, rfl, hfront, hback⟩, hfirst, hlast⟩
    have hreverse : ∀ c ∈ back.reverse, isBlank c = true := fun c hc => hback c (List.mem_reverse.1 hc)
    cases core with
    | nil =>
      have hall : ∀ c ∈ front ++ [] ++ back, isBlank c = true := by
        intro c hc
        rw [List.append_nil, List.mem_append] at hc
        exact hc.elim (hfront c) (hback c)
      have hnone : skipBlanks (front ++ [] ++ back ++ []) = [] := skipBlanks_append hall (by simp)
      rw [List.append_nil] at hnone
      rw [trim, hnone]
      rfl
    | cons d core =>
      have hskip : skipBlanks (front ++ d :: core ++ back) = d :: core ++ back := by
        rw [List.append_assoc]
        exact skipBlanks_append hfront hfirst
      have hends : ∀ c ∈ (d :: core).reverse.head?, isBlank c = false := by
        rw [List.head?_reverse]
        exact hlast
      rw [trim, hskip, List.reverse_append, skipBlanks_append hreverse hends, List.reverse_reverse]

end Crossover.Text
