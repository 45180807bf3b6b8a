/-
Crossover.Series — closing prices in order, with or without times.

A series has at least one price. If it has times, there is one for each price, and each is before
all later ones; both are part of the type. `Series.ofTimed` compares neighbours only, which is
enough because `Instant.Before` is transitive (`pairwise_of_firstDisorder`).
-/
import Crossover.Label

namespace Crossover

open Text

/-! ## 1. The order of times -/

/-- Two neighbours out of order: the row of the second, and both times. -/
structure Disorder where
  row : Nat
  earlier : Instant
  later : Instant
  deriving DecidableEq

/-- The first time that is not after its predecessor. -/
def firstDisorder? : List Instant → Option Disorder
  | a :: b :: rest =>
    if a.Before b then (firstDisorder? (b :: rest)).map fun d => { d with row := d.row + 1 }
    else some ⟨1, a, b⟩
  | _ => none

theorem pairwise_of_firstDisorder : {times : List Instant} → firstDisorder? times = none →
    times.Pairwise Instant.Before
  | [], _ => List.Pairwise.nil
  | [a], _ => by simp
  | a :: b :: rest, h => by
    rw [firstDisorder?] at h
    split at h
    · rename_i hab
      have ih := pairwise_of_firstDisorder (Option.map_eq_none_iff.1 h)
      refine List.Pairwise.cons ?_ ih
      intro c hc
      rcases List.mem_cons.1 hc with hc | hc
      · exact hc ▸ hab
      · exact hab.trans (List.rel_of_pairwise_cons ih hc)
    · simp at h

/-! ## 2. Series -/

/-- Why prices and times make no series. -/
inductive SeriesFault where
  | empty
  | lengths (prices times : Nat)
  | unordered (d : Disorder)
  deriving DecidableEq

/-- Closing prices in the order of their bars. -/
structure Series where
  closes : List Float
  times : Option (List Instant)
  closes_ne_nil : closes ≠ []
  times_length : ∀ ts ∈ times, ts.length = closes.length
  times_pairwise : ∀ ts ∈ times, ts.Pairwise Instant.Before

namespace SeriesFault

def message : SeriesFault → String
  | empty => "price series is empty"
  | lengths prices times =>
    Digits.text prices ++ " prices but " ++ Digits.text times ++ " timestamps"
  | unordered d =>
    "timestamps not strictly increasing at row " ++ Digits.text d.row ++ ": " ++ d.earlier.text ++
      " then " ++ d.later.text

end SeriesFault

namespace Series

/-- A series whose bars are named by position. -/
def ofCloses (closes : List Float) : Except SeriesFault Series :=
  if h : closes = [] then .error .empty
  else .ok ⟨closes, none, h, by simp, by simp⟩

/-- A series whose bars are named by time. -/
def ofTimed (closes : List Float) (times : List Instant) : Except SeriesFault Series :=
  if h : closes = [] then .error .empty
  else if hl : times.length = closes.length then
    match ho : firstDisorder? times with
    | none => .ok ⟨closes, some times, h, by simp [hl], by simp [pairwise_of_firstDisorder ho]⟩
    | some d => .error (.unordered d)
  else .error (.lengths closes.length times.length)

def size (s : Series) : Nat :=
  s.closes.length

/-- The prices from position `start` up to and without `stop`. -/
def slice (s : Series) (start stop : Nat) : List Float :=
  (s.closes.drop start).take (stop - start)

/-- The slice, if its bounds are in order and within the series. -/
def slice? (s : Series) (start stop : Nat) : Option (List Float) :=
  if start ≤ stop ∧ stop ≤ s.size then some (s.slice start stop) else none

/-- The label of the bar at a position. A series without times has one for every position. -/
def label? (s : Series) (position : Nat) : Option Label :=
  match s.times with
  | none => some (.position position)
  | some times => times[position]?.map .time

end Series

end Crossover
