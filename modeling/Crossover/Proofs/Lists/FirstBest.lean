/-
Crossover.Proofs.Lists.FirstBest — the first of the best values of a list, by a key that is a double.

A search that goes through a list once and changes its mind only for a greater key ends at the first of
the best values: whatever stands before it is less or has no number for its key, and nothing behind it is
greater (`FirstBest`). The lemmas say what one more value at the end of the list does, which is what one
step of such a search does: the new value wins if its key is greater (`FirstBest.last`), and otherwise the
old winner stays (`FirstBest.concat`).
-/
import Crossover.Proofs.Numeric.Order

namespace Crossover

variable {α β : Type}

/-- The first of the best values of a list. -/
def FirstBest (key : α → Float) (xs : List α) (w : α) : Prop :=
  ∃ before after, xs = before ++ w :: after ∧
    (∀ x ∈ before, (key x).isNaN = true ∨ key x < key w) ∧ ∀ x ∈ after, ¬ key w < key x

namespace FirstBest

variable {key : α → Float} {xs : List α} {w x : α}

theorem singleton (key : α → Float) (x : α) : FirstBest key [x] x :=
  ⟨[], [], rfl, by simp, by simp⟩

theorem mem (h : FirstBest key xs w) : w ∈ xs := by
  obtain ⟨before, after, rfl, -, -⟩ := h
  simp

/-- No value of the list is greater. -/
theorem not_lt (h : FirstBest key xs w) (hx : x ∈ xs) : ¬ key w < key x := by
  obtain ⟨before, after, rfl, hbefore, hafter⟩ := h
  rcases List.mem_append.1 hx with hx | hx
  · exact Double.not_lt_of_isNaN_or_lt (hbefore x hx)
  · rcases List.mem_cons.1 hx with rfl | hx
    · exact Double.lt_irrefl (key x)
    · exact hafter x hx

/-- If the first value has a number for its key, so has the best. -/
theorem isNaN_eq_false (h : FirstBest key (x :: xs) w) (hx : (key x).isNaN = false) :
    (key w).isNaN = false := by
  obtain ⟨before, after, hcut, hbefore, -⟩ := h
  cases before with
  | nil =>
    obtain ⟨rfl, -⟩ := List.cons.inj hcut
    exact hx
  | cons y front =>
    obtain ⟨rfl, -⟩ := List.cons.inj hcut
    rcases hbefore x List.mem_cons_self with hnan | hlt
    · rw [hx] at hnan
      cases hnan
    · exact Double.isNaN_eq_false_of_lt hlt

/-- A value at the end that exceeds what nothing before it does is the best. -/
theorem last {floor : Float} (h : ∀ y ∈ xs, ¬ floor < key y) (hx : floor < key x) :
    FirstBest key (xs ++ [x]) x :=
  ⟨xs, [], rfl, fun y hy => Double.isNaN_or_lt (h y hy) hx, by simp⟩

/-- A value at the end that is not greater leaves the best one. -/
theorem concat (h : FirstBest key xs w) (hx : ¬ key w < key x) : FirstBest key (xs ++ [x]) w := by
  obtain ⟨before, after, rfl, hbefore, hafter⟩ := h
  refine ⟨before, after ++ [x], by simp, hbefore, fun y hy => ?_⟩
  rcases List.mem_append.1 hy with hy | hy
  · exact hafter y hy
  · rwa [List.mem_singleton.1 hy]

/-- One step of a search for the best. -/
theorem step (h : FirstBest key xs w) (x : α) :
    FirstBest key (xs ++ [x]) (if key w < key x then x else w) := by
  split
  · rename_i hbetter
    exact last (fun y hy => h.not_lt hy) hbetter
  · rename_i hworse
    exact h.concat hworse

/-- The best of some images is the image of the best. -/
theorem of_map {f : α → β} {key : β → Float} {w : β} (h : FirstBest key (xs.map f) w) :
    ∃ x, f x = w ∧ FirstBest (fun y => key (f y)) xs x := by
  obtain ⟨before, after, hxs, hbefore, hafter⟩ := h
  obtain ⟨front, rest, rfl, rfl, hrest⟩ := List.map_eq_append_iff.1 hxs
  obtain ⟨x, back, rfl, rfl, rfl⟩ := List.map_eq_cons_iff.1 hrest
  refine ⟨x, rfl, front, back, rfl, fun y hy => ?_, fun y hy => ?_⟩
  · exact hbefore (f y) (List.mem_map_of_mem hy)
  · exact hafter (f y) (List.mem_map_of_mem hy)

end FirstBest

end Crossover
