/-
Crossover.Proofs.Strategy.RoundTrip — a strategy file holds the strategy it was written for.

A strategy is written as seven lines: its name, a blank line, the header of a table and the four members
of that table. Each line is read by itself (`Crossover.Proofs.Toml.Lines`), so the text is read as a table
with these members (`reads_chars`), and the fields are found in it by their names. The only strategies that
are not written are those with a number beyond `Toml.greatest`.
-/
import Crossover.Proofs.Toml.Lines
import Crossover.Strategy

namespace Crossover

open Toml Text

/-- The line of a member whose value is a number. -/
def Toml.natLine (name : String) (n : Nat) : List Char :=
  name.toList ++ [' ', '=', ' '] ++ Digits.ofNat n ++ ['\n']

theorem Toml.natMember?_eq_some {n : Nat} (h : n ≤ greatest) (name : String) :
    natMember? name n = some (natLine name n) :=
  if_pos h

theorem Toml.natMember?_eq_none {n : Nat} (h : ¬ n ≤ greatest) (name : String) :
    natMember? name n = none :=
  if_neg h

namespace Strategy

/-- Every number of a strategy is small enough to be written. -/
def Writable (s : Strategy) : Prop :=
  s.fast ≤ greatest ∧ s.slow ≤ greatest ∧ s.minSamples ≤ greatest

/-- The lines of a strategy file. -/
def chars (s : Strategy) : List Char :=
  stringMember "strategy_name" s.name ++ (['\n'] ++ (headerLine "params" ++
    (stringMember "symbol" s.symbol ++ (natLine "fast_period" s.fast ++
      (natLine "slow_period" s.slow ++ (natLine "min_samples" s.minSamples ++ []))))))

theorem toToml?_eq_some {s : Strategy} (h : s.Writable) : s.toToml? = some (String.ofList s.chars) := by
  obtain ⟨hfast, hslow, hmin⟩ := h
  simp only [toToml?, natMember?_eq_some hfast, natMember?_eq_some hslow, natMember?_eq_some hmin,
    Option.bind_eq_bind, Option.bind_some, Option.pure_def, chars, List.append_assoc, List.append_nil,
    List.cons_append, List.nil_append]

theorem toToml?_eq_none {s : Strategy} (h : ¬ s.Writable) : s.toToml? = none := by
  unfold toToml?
  by_cases hfast : s.fast ≤ greatest
  · by_cases hslow : s.slow ≤ greatest
    · have hmin : ¬ s.minSamples ≤ greatest := fun hmin => h ⟨hfast, hslow, hmin⟩
      rw [natMember?_eq_some hfast, natMember?_eq_some hslow, natMember?_eq_none hmin]
      rfl
    · rw [natMember?_eq_some hfast, natMember?_eq_none hslow]
      rfl
  · rw [natMember?_eq_none hfast]
    rfl

/-- The members of a strategy file. -/
def members (s : Strategy) : Members :=
  [("strategy_name", .string s.name), ("params", .table .header [("symbol", .string s.symbol),
    ("fast_period", .integer s.fast), ("slow_period", .integer s.slow),
    ("min_samples", .integer s.minSamples)])]

/-- Line by line, a strategy file is read as its members. -/
theorem reads_chars {s : Strategy} (h : s.Writable) : Reads {} s.chars ⟨s.members, ["params"]⟩ := by
  obtain ⟨hfast, hslow, hmin⟩ := h
  have hbare : ∀ name ∈ ["strategy_name", "params", "symbol", "fast_period", "slow_period", "min_samples"],
      Bare name := by
    simp [Bare, isKeyChar]
  refine .cons (readsLine_member (hbare _ (by simp)) (readsValue_string s.name) rfl) ?_
  refine .cons (readsLine_blank _) ?_
  refine .cons (readsLine_header (hbare _ (by simp)) rfl) ?_
  refine .cons (readsLine_member (hbare _ (by simp)) (readsValue_string s.symbol) rfl) ?_
  refine .cons (readsLine_member (hbare _ (by simp)) (readsValue_ofNat hfast) rfl) ?_
  refine .cons (readsLine_member (hbare _ (by simp)) (readsValue_ofNat hslow) rfl) ?_
  refine .cons (readsLine_member (hbare _ (by simp)) (readsValue_ofNat hmin) rfl) ?_
  exact .nil _

theorem ofDocument?_members (s : Strategy) :
    ofDocument? true (Toml.table .header s.members).document = some s := by
  simp only [Toml.document, Toml.memberDocuments, members]
  rfl

/-- What is written is read back. -/
theorem ofToml?_chars {s : Strategy} (h : s.Writable) : ofToml? (String.ofList s.chars) = some s := by
  have hmark : s.chars.head? ≠ some '\ufeff' := by
    simp [chars, stringMember]
  have hread := (reads_chars h).read?_eq hmark
  rw [ofToml?, hread]
  exact ofDocument?_members s

end Strategy

/-- **Strategies survive being written and read.** A strategy is written unless one of its three numbers
is beyond the greatest integer of TOML; and whatever is written is read back as that strategy, with any
characters in its name and its symbol. -/
theorem strategy_round_trip (s : Strategy) :
    (s.toToml? = none ↔ greatest < s.fast ∨ greatest < s.slow ∨ greatest < s.minSamples) ∧
      ∀ text, s.toToml? = some text → Strategy.ofToml? text = some s := by
  have hwritable : s.Writable ↔ ¬ (greatest < s.fast ∨ greatest < s.slow ∨ greatest < s.minSamples) := by
    unfold Strategy.Writable
    omega
  by_cases h : s.Writable
  · rw [Strategy.toToml?_eq_some h]
    refine ⟨iff_of_false nofun (hwritable.1 h), fun text htext => ?_⟩
    cases htext
    exact Strategy.ofToml?_chars h
  · rw [Strategy.toToml?_eq_none h]
    exact ⟨iff_of_true rfl (Decidable.not_not.1 (mt hwritable.2 h)), nofun⟩

/-- A strategy whose name takes several lines and escapes, and whose symbol takes apostrophes. -/
def knottyStrategy : Strategy :=
  ⟨"a\n\"\"\"'''\\\x01", "BTC\"USDT", greatest, 0, 35⟩

/-- Its file. In the name the third quote in a row, the backslash and the control character are escaped. -/
def knottyText : String :=
  "strategy_name = \"\"\"\na\n\"\"\\\"'''\\\\\\u0001\"\"\"\n\n[params]\nsymbol = 'BTC\"USDT'\n" ++
    "fast_period = 9223372036854775807\nslow_period = 0\nmin_samples = 35\n"

theorem strategy_round_trip_of_knotty :
    knottyStrategy.toToml? = some knottyText ∧ Strategy.ofToml? knottyText = some knottyStrategy := by
  have htext : knottyStrategy.toToml? = some knottyText := by decide +kernel
  exact ⟨htext, (strategy_round_trip knottyStrategy).2 _ htext⟩

end Crossover
