/-
Crossover.Proofs.Lists.Alongside — lists that go along with each other, element by element.

Two lists of one length go along with each other if each element of the one is related to the element of
the other at its place (`List.Forall₂`). What holds of the elements of a list, two by two, then carries over
to the other list. A list is its own image if each of its elements is its own (`map_eq_self`).
-/
import Mathlib

namespace Crossover

variable {α β : Type}

theorem map_eq_self {f : α → α} {xs : List α} (h : ∀ x ∈ xs, f x = x) : xs.map f = xs :=
  (List.map_congr_left h).trans (List.map_id xs)

/-- A list of results goes along with the list that it was made of. -/
theorem forall₂_of_mapM {f : α → Option β} {R : α → β → Prop} {xs : List α} {ys : List β}
    (h : xs.mapM f = some ys) (hR : ∀ x ∈ xs, ∀ y, f x = some y → R x y) : List.Forall₂ R xs ys := by
  induction xs generalizing ys with
  | nil =>
    cases h
    exact .nil
  | cons x rest ih =>
    simp only [List.mapM_cons, Option.bind_eq_bind, Option.pure_def, Option.bind_eq_some_iff,
      Option.some.injEq] at h
    obtain ⟨y, hy, more, hmore, rfl⟩ := h
    exact .cons (hR x List.mem_cons_self y hy) (ih hmore fun z hz => hR z (List.mem_cons_of_mem x hz))

/-- What holds between any two elements of a list carries over to a list that goes along with it. -/
theorem pairwise_of_forall₂ {R : α → β → Prop} {P : α → α → Prop} {Q : β → β → Prop} {xs : List α}
    {ys : List β} (h : List.Forall₂ R xs ys) (hxs : xs.Pairwise P)
    (hstep : ∀ x y x' y', R x y → R x' y' → P x x' → Q y y') : ys.Pairwise Q := by
  have hlength := h.length_eq
  rw [List.pairwise_iff_getElem] at hxs ⊢
  intro i j hi hj hij
  exact hstep _ _ _ _ (h.get (hlength ▸ hi) hi) (h.get (hlength ▸ hj) hj)
    (hxs i j (hlength ▸ hi) (hlength ▸ hj) hij)

/-- Something goes along with a list if something goes with each of its elements. -/
theorem exists_forall₂_iff {R : α → β → Prop} {xs : List α} :
    (∃ ys, List.Forall₂ R xs ys) ↔ ∀ x ∈ xs, ∃ y, R x y := by
  induction xs with
  | nil => simp
  | cons x rest ih =>
    rw [List.forall_mem_cons, ← ih]
    constructor
    · rintro ⟨ys, hys⟩
      cases hys with
      | cons hx hrest => exact ⟨⟨_, hx⟩, _, hrest⟩
    · rintro ⟨⟨y, hy⟩, ys, hys⟩
      exact ⟨y :: ys, .cons hy hys⟩

end Crossover
