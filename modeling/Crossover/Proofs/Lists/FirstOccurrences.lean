/-
Crossover.Proofs.Lists.FirstOccurrences — a list without its repetitions, the first of each kept.

Everything follows from what one more value at the end does: it is kept if it is new and dropped if it has
been met before (`eraseDups_concat`). So the lemmas go by induction from the end of a list. Repetitions may
be dropped before or after a list is filtered, mapped or paired with another one.
-/
import Mathlib

namespace Crossover

section FirstOccurrences

variable {α β : Type} [BEq α] [LawfulBEq α] [BEq β] [LawfulBEq β]

/-- One more value at the end is a new one or has been met before. -/
theorem eraseDups_concat (xs : List α) (x : α) :
    (xs ++ [x]).eraseDups = if x ∈ xs then xs.eraseDups else xs.eraseDups ++ [x] := by
  rw [List.eraseDups_append]
  by_cases h : x ∈ xs
  · simp [List.removeAll, h]
  · simp [List.removeAll, List.eraseDups_cons, h]

theorem nodup_eraseDups (xs : List α) : xs.eraseDups.Nodup := by
  induction xs using List.reverseRecOn with
  | nil => simp
  | append_singleton xs x ih =>
    rw [eraseDups_concat]
    split
    · exact ih
    · rename_i hnew
      refine List.nodup_append.2 ⟨ih, by simp, ?_⟩
      intro y hy z hz hyz
      rw [List.mem_singleton.1 hz] at hyz
      exact hnew (hyz ▸ List.mem_eraseDups.1 hy)

/-- A list without its repetitions goes by first places. -/
theorem pairwise_idxOf_eraseDups (xs : List α) :
    xs.eraseDups.Pairwise fun x y => xs.idxOf x < xs.idxOf y := by
  induction xs using List.reverseRecOn with
  | nil => simp
  | append_singleton xs x ih =>
    -- One more value at the end leaves the first places of the others.
    have hothers : xs.eraseDups.Pairwise fun y z => (xs ++ [x]).idxOf y < (xs ++ [x]).idxOf z := by
      refine ih.imp_of_mem fun {y z} hy hz hlt => ?_
      rwa [List.idxOf_append_of_mem (List.mem_eraseDups.1 hy),
        List.idxOf_append_of_mem (List.mem_eraseDups.1 hz)]
    rw [eraseDups_concat]
    split
    · exact hothers
    · rename_i hnew
      refine List.pairwise_append.2 ⟨hothers, by simp, fun y hy z hz => ?_⟩
      have hy : y ∈ xs := List.mem_eraseDups.1 hy
      have hplace : xs.idxOf y < xs.length := List.idxOf_lt_length_of_mem hy
      rw [List.mem_singleton.1 hz, List.idxOf_append_of_mem hy, List.idxOf_append_of_notMem hnew]
      omega

theorem eraseDups_filter (p : α → Bool) (xs : List α) :
    (xs.filter p).eraseDups = xs.eraseDups.filter p := by
  induction xs using List.reverseRecOn with
  | nil => rfl
  | append_singleton xs x ih =>
    by_cases hp : p x = true <;> by_cases hx : x ∈ xs <;> simp [eraseDups_concat, hp, hx, ih]

theorem eraseDups_map {f : α → β} (hf : Function.Injective f) (xs : List α) :
    (xs.map f).eraseDups = xs.eraseDups.map f := by
  induction xs using List.reverseRecOn with
  | nil => rfl
  | append_singleton xs x ih =>
    have hmem : f x ∈ xs.map f ↔ x ∈ xs := List.mem_map_of_injective hf
    by_cases hx : x ∈ xs
    · simp [eraseDups_concat, hmem, hx, ih]
    · simp [eraseDups_concat, hmem, hx, ih]

/-- Repetitions among pairs are those among their first parts and those among their second ones. -/
theorem eraseDups_flatMap_map {γ : Type} [BEq γ] [LawfulBEq γ] {f : α → β → γ}
    (hf : Function.Injective2 f) (xs : List α) (ys : List β) :
    (xs.flatMap fun x => ys.map (f x)).eraseDups =
      xs.eraseDups.flatMap fun x => ys.eraseDups.map (f x) := by
  have hmem : ∀ (xs : List α) (x : α) (y : β), y ∈ ys →
      (f x y ∈ xs.flatMap (fun x => ys.map (f x)) ↔ x ∈ xs) := by
    intro xs x y hy
    simp only [List.mem_flatMap, List.mem_map]
    constructor
    · rintro ⟨x', hx', y', -, heq⟩
      exact (hf heq).1 ▸ hx'
    · exact fun hx => ⟨x, hx, y, hy, rfl⟩
  induction xs using List.reverseRecOn with
  | nil => rfl
  | append_singleton xs x ih =>
    rw [List.flatMap_append, List.flatMap_singleton, List.eraseDups_append, ih, eraseDups_concat]
    split
    · -- All pairs with a first part that has been met before have been met before.
      rename_i hx
      have hold : (ys.map (f x)).removeAll (xs.flatMap fun x => ys.map (f x)) = [] := by
        rw [List.removeAll, List.filter_eq_nil_iff]
        intro z hz
        obtain ⟨y, hy, rfl⟩ := List.mem_map.1 hz
        simpa using (hmem xs x y hy).2 hx
      rw [hold, List.eraseDups_nil, List.append_nil]
    · rename_i hx
      have hnew : (ys.map (f x)).removeAll (xs.flatMap fun x => ys.map (f x)) = ys.map (f x) := by
        rw [List.removeAll, List.filter_eq_self]
        intro z hz
        obtain ⟨y, hy, rfl⟩ := List.mem_map.1 hz
        simpa using mt (hmem xs x y hy).1 hx
      rw [hnew, eraseDups_map (hf.right x), List.flatMap_append, List.flatMap_singleton]

/-- A fold that takes no notice of a value that it has met before takes no notice of repetitions. -/
theorem foldl_eraseDups {γ : Type} {step : γ → α → γ} {start : γ}
    (h : ∀ xs : List α, ∀ x ∈ xs, step (xs.foldl step start) x = xs.foldl step start) (xs : List α) :
    xs.eraseDups.foldl step start = xs.foldl step start := by
  induction xs using List.reverseRecOn with
  | nil => rfl
  | append_singleton xs x ih =>
    rw [eraseDups_concat, List.foldl_concat]
    split
    · rename_i hx
      rw [ih, h xs x hx]
    · rw [List.foldl_concat, ih]

end FirstOccurrences

end Crossover
