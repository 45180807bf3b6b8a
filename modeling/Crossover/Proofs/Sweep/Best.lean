/-
Crossover.Proofs.Sweep.Best — the search finds the first of the best candidates.

The search goes once through the candidates in one list, and what it keeps is the first of the best of
that list (`firstBest_of_foldl`). The list is a double loop over both sides of the sweep with the pairs
that are none left out, so that a place in it is a place among the fast periods and one among the slow
ones; cutting the list before a candidate leaves in front of the cut the candidates whose places come
before in the order of pairs of numbers (`candidates_cut`).

  §1 Places — candidates by the places of their periods.
  §2 Search — what the fold keeps, as a candidate with a place.
-/
import Crossover.Proofs.Lists.FirstBest
import Crossover.Proofs.Score.Solvency

namespace Crossover

/-! ## §1 Places -/

/-- A candidate and the places of its periods in the sweep. -/
structure Sweep.CandidateAt (s : Sweep) (i j : ℕ) (p : Pair) : Prop where
  fast : s.fast[i]? = some p.fast
  slow : s.slow[j]? = some p.slow
  valid : p.fast < p.slow

theorem mem_candidates_iff_candidateAt {s : Sweep} {p : Pair} :
    p ∈ s.candidates ↔ ∃ i j, s.CandidateAt i j p := by
  rw [s.mem_candidates, List.mem_iff_getElem?, List.mem_iff_getElem?]
  constructor
  · rintro ⟨⟨i, hi⟩, ⟨j, hj⟩, hvalid⟩
    exact ⟨i, j, hi, hj, hvalid⟩
  · rintro ⟨i, j, h⟩
    exact ⟨⟨i, h.fast⟩, ⟨j, h.slow⟩, h.valid⟩

/-- There is one pair at most at each place. -/
theorem Sweep.CandidateAt.eq {s : Sweep} {i j : ℕ} {p q : Pair} (hp : s.CandidateAt i j p)
    (hq : s.CandidateAt i j q) : p = q := by
  have hfast : p.fast = q.fast := Option.some.inj (hp.fast.symm.trans hq.fast)
  have hslow : p.slow = q.slow := Option.some.inj (hp.slow.symm.trans hq.slow)
  cases p
  cases q
  exact congrArg₂ Pair.mk hfast hslow

section Loops

variable {α β γ : Type} {f : α → β → γ} {xs : List α} {ys : List β} {before : List γ} {w : γ} {i j : ℕ}

/-- A double loop has a value at a place, and the values of all places before that one are in a list. -/
structure LoopAt (f : α → β → γ) (xs : List α) (ys : List β) (before : List γ) (w : γ) (i j : ℕ) :
    Prop where
  value : ∃ x y, xs[i]? = some x ∧ ys[j]? = some y ∧ f x y = w
  earlier : ∀ {i' j' x y}, xs[i']? = some x → ys[j']? = some y → toLex (i', j') < toLex (i, j) →
    f x y ∈ before

/-- A place in the first round of the outer loop has the places before it in the same round. -/
theorem LoopAt.first (x : α) (rest : List α) {front back : List β} {y : β} (hys : ys = front ++ y :: back) :
    LoopAt f (x :: rest) ys (front.map (f x)) (f x y) 0 front.length := by
  refine ⟨⟨x, y, rfl, by simp [hys], rfl⟩, fun {i' j' x' y'} hx' hy' hlt => ?_⟩
  obtain ⟨rfl, hj'⟩ : i' = 0 ∧ j' < front.length := by simpa [Prod.Lex.toLex_lt_toLex] using hlt
  cases hx'
  rw [hys, List.getElem?_append_left hj'] at hy'
  exact List.mem_map_of_mem (List.mem_of_getElem? hy')

/-- A place in a later round has the whole first round before it. -/
theorem LoopAt.later (x : α) (h : LoopAt f xs ys before w i j) :
    LoopAt f (x :: xs) ys (ys.map (f x) ++ before) w (i + 1) j := by
  refine ⟨h.value, fun {i' j' x' y'} hx' hy' hlt => List.mem_append.2 ?_⟩
  cases i' with
  | zero =>
    cases hx'
    exact .inl (List.mem_map_of_mem (List.mem_of_getElem? hy'))
  | succ k =>
    refine .inr (h.earlier hx' hy' ?_)
    simpa [Prod.Lex.toLex_lt_toLex] using hlt

/-- A double loop that is cut before one of its values has what comes before in front of the cut. -/
theorem loopAt_of_flatMap_map {after : List γ}
    (h : (xs.flatMap fun x => ys.map (f x)) = before ++ w :: after) :
    ∃ i j, LoopAt f xs ys before w i j := by
  induction xs generalizing before with
  | nil => simp at h
  | cons x rest ih =>
    rw [List.flatMap_cons] at h
    rcases List.append_eq_append_iff.1 h with ⟨front, rfl, hrest⟩ | ⟨back, hfirst, hback⟩
    · obtain ⟨i, j, hloop⟩ := ih hrest
      exact ⟨i + 1, j, hloop.later x⟩
    · cases back with
      | nil =>
        -- The cut is between the first round and the next.
        have hrest : (rest.flatMap fun x => ys.map (f x)) = [] ++ w :: after := hback.symm
        obtain ⟨i, j, hloop⟩ := ih hrest
        refine ⟨i + 1, j, ?_⟩
        simpa [hfirst] using hloop.later x
      | cons v back =>
        obtain ⟨rfl, -⟩ := List.cons.inj hback
        obtain ⟨front, tail, rfl, rfl, htail⟩ := List.map_eq_append_iff.1 hfirst
        obtain ⟨y, back, rfl, rfl, -⟩ := List.map_eq_cons_iff.1 htail
        exact ⟨0, front.length, LoopAt.first x rest rfl⟩

end Loops

/-- Candidates that are cut before one of them have the candidates of all earlier places in front of the
cut. -/
theorem candidates_cut {s : Sweep} {before after : List Pair} {p : Pair}
    (h : s.candidates = before ++ p :: after) :
    ∃ i j, s.CandidateAt i j p ∧ ∀ i' j' q, s.CandidateAt i' j' q → toLex (i', j') < toLex (i, j) →
      q ∈ before := by
  have hp : p ∈ s.candidates := by simp [h]
  have hvalid : p.fast < p.slow := ((s.mem_candidates p).1 hp).2.2
  obtain ⟨front, rest, hpairs, rfl, hrest⟩ := List.filter_eq_append_iff.1 h
  obtain ⟨gap, tail, rfl, hgap, -, -⟩ := List.filter_eq_cons_iff.1 hrest
  rw [← List.append_assoc] at hpairs
  obtain ⟨i, j, ⟨f, l, hf, hl, rfl⟩, hearlier⟩ := loopAt_of_flatMap_map hpairs
  refine ⟨i, j, ⟨hf, hl, hvalid⟩, fun i' j' q hq hlt => ?_⟩
  have hisValid : q.isValid = true := decide_eq_true hq.valid
  rcases List.mem_append.1 (hearlier hq.fast hq.slow hlt) with hfront | hskipped
  · exact List.mem_filter.2 ⟨hfront, hisValid⟩
  · exact absurd hisValid (hgap q hskipped)

/-! ## §2 Search -/

/-- What the search keeps has its own score, one above `noScore`, and is the first of the best. -/
theorem firstBest_of_foldl {closes : List Float} {pairs : List Pair} {found : Scored}
    (h : pairs.foldl (searchStep closes) none = some found) :
    found.score = found.pair.score closes ∧ noScore < found.score ∧
      FirstBest (fun p => p.score closes) pairs found.pair := by
  induction pairs using List.reverseRecOn generalizing found with
  | nil => cases h
  | append_singleton pairs p ih =>
    rw [List.foldl_concat] at h
    cases hbest : pairs.foldl (searchStep closes) none with
    | none =>
      have hnone := ((foldl_searchStep_eq_none_iff closes pairs none).1 hbest).2
      rw [hbest, searchStep, improve_none] at h
      split at h
      · rename_i habove
        cases h
        exact ⟨rfl, habove, FirstBest.last hnone habove⟩
      · cases h
    | some best =>
      obtain ⟨hscore, habove, hfirst⟩ := ih hbest
      rw [hbest, searchStep, improve, bestScore] at h
      split at h
      · rename_i hbetter
        cases h
        refine ⟨rfl, Double.lt_trans habove hbetter, FirstBest.last (fun q hq => ?_) hbetter⟩
        rw [hscore]
        exact hfirst.not_lt hq
      · rename_i hworse
        cases h
        rw [hscore] at hworse
        exact ⟨hscore, habove, hfirst.concat hworse⟩

/-- No candidate that was tried has a score above the best one. -/
theorem not_bestScore_lt_of_mem {closes : List Float} {pairs : List Pair} {p : Pair} (hp : p ∈ pairs) :
    ¬ bestScore (pairs.foldl (searchStep closes) none) < p.score closes := by
  cases hbest : pairs.foldl (searchStep closes) none with
  | none => exact ((foldl_searchStep_eq_none_iff closes pairs none).1 hbest).2 p hp
  | some found =>
    obtain ⟨hscore, -, hfirst⟩ := firstBest_of_foldl hbest
    rw [bestScore, hscore]
    exact hfirst.not_lt hp

/-- What a search is to find: a candidate with its own score, above `noScore`. No candidate has a higher
score, and each one whose place comes before has a lower one or none that is a number. -/
structure Sweep.FirstBestAt (s : Sweep) (closes : List Float) (i j : ℕ) (found : Scored) : Prop where
  candidate : s.CandidateAt i j found.pair
  score_eq : found.score = found.pair.score closes
  above : noScore < found.score
  highest : ∀ {i' j' p}, s.CandidateAt i' j' p → ¬ found.score < p.score closes
  earlier : ∀ {i' j' p}, s.CandidateAt i' j' p → toLex (i', j') < toLex (i, j) →
    (p.score closes).isNaN = true ∨ p.score closes < found.score

namespace Sweep.FirstBestAt

variable {s : Sweep} {closes : List Float} {i j i' j' : ℕ} {found found' : Scored}

/-- Neither of two best candidates comes before the other. -/
theorem not_earlier (h : s.FirstBestAt closes i j found) (h' : s.FirstBestAt closes i' j' found') :
    ¬ toLex (i, j) < toLex (i', j') := by
  intro hlt
  have hlower := h'.earlier h.candidate hlt
  rw [← h.score_eq] at hlower
  rcases hlower with hnan | hlower
  · exact Double.not_lt_of_isNaN_or_lt (.inl hnan) h.above
  · rw [h'.score_eq] at hlower
    exact h.highest h'.candidate hlower

/-- There is one to find at most. -/
theorem eq (h : s.FirstBestAt closes i j found) (h' : s.FirstBestAt closes i' j' found') :
    found = found' := by
  have hplace : toLex (i, j) = toLex (i', j') :=
    le_antisymm (not_lt.1 (h'.not_earlier h)) (not_lt.1 (h.not_earlier h'))
  obtain ⟨rfl, rfl⟩ := Prod.mk.inj (toLex_inj.1 hplace)
  have hpair : found.pair = found'.pair := h.candidate.eq h'.candidate
  have hscore : found.score = found'.score := by rw [h.score_eq, h'.score_eq, hpair]
  cases found
  cases found'
  exact congrArg₂ Scored.mk hpair hscore

end Sweep.FirstBestAt

/-- What the search finds is what it is to find. -/
theorem exists_firstBestAt_of_winner? {s : Sweep} {closes : List Float} {found : Scored}
    (h : s.winner? closes = some found) : ∃ i j, s.FirstBestAt closes i j found := by
  obtain ⟨hscore, habove, hfirst⟩ := firstBest_of_foldl h
  obtain ⟨before, after, hcut, hbefore, -⟩ := id hfirst
  obtain ⟨i, j, hplace, hearlier⟩ := candidates_cut hcut
  refine ⟨i, j, hplace, hscore, habove, fun {i' j' p} hp => ?_, fun {i' j' p} hp hlt => ?_⟩
  · rw [hscore]
    exact hfirst.not_lt (mem_candidates_iff_candidateAt.2 ⟨i', j', hp⟩)
  · rw [hscore]
    exact hbefore p (hearlier i' j' p hp hlt)

/-- **The search finds the first of the best candidates.** It finds nothing exactly if every candidate has
a score of minus infinity or none that is a number. Whatever it finds is a candidate with its own score,
above minus infinity; no candidate has a higher score, and each one that is tried before it has a lower
one or none that is a number. There is nothing else of which this is true. -/
theorem search_finds_first_best (s : Sweep) (closes : List Float) :
    (s.winner? closes = none ↔ ∀ i j p, s.CandidateAt i j p →
      (p.score closes == noScore) = true ∨ (p.score closes).isNaN = true) ∧
    ∀ found, s.winner? closes = some found ↔ ∃ i j, s.FirstBestAt closes i j found := by
  constructor
  · rw [winner?_eq_none_iff]
    constructor
    · intro h i j p hp
      exact (not_noScore_lt_iff _).1 (h p (mem_candidates_iff_candidateAt.2 ⟨i, j, hp⟩))
    · intro h p hp
      obtain ⟨i, j, hplace⟩ := mem_candidates_iff_candidateAt.1 hp
      exact (not_noScore_lt_iff _).2 (h i j p hplace)
  · refine fun found => ⟨exists_firstBestAt_of_winner?, ?_⟩
    rintro ⟨i, j, h⟩
    cases hwinner : s.winner? closes with
    | none =>
      have hnone := (winner?_eq_none_iff s closes).1 hwinner found.pair
        (mem_candidates_iff_candidateAt.2 ⟨i, j, h.candidate⟩)
      rw [← h.score_eq] at hnone
      exact absurd h.above hnone
    | some other =>
      obtain ⟨i', j', h'⟩ := exists_firstBestAt_of_winner? hwinner
      rw [h'.eq h]

/-- Over prices that do not move all candidates have the same score, and the first of them is found. -/
example : (Sweep.winner? ⟨[2, 1], [3, 2]⟩ [5.0, 5.0]).map Scored.pair = some ⟨2, 3⟩ := by
  decide +kernel

end Crossover
