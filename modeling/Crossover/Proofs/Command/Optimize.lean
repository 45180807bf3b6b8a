/-
Crossover.Proofs.Command.Optimize — what an optimization leaves behind when it fails.

An optimization first works everything out, which changes nothing (`readOnly_prepare`), and then writes
up to two artifacts, one after the other. Each of them appears as a whole or not at all, but there is no
way back from the first to before it: when the strategy cannot be written, the summary is there already.
`Extent` says how far the writing got, `Halted` which failures go with which extent, and
`failed_optimize_exactly` when a failure leaves the artifacts as they were.

  §1 Preparing  — what is worked out before anything is written.
  §2 Extents    — what has been put in its place, and what has only been staged.
  §3 Writing    — how far it gets when it fails.
  §4 Failures   — all failures of an optimization.
-/
import Crossover.Command.Run
import Crossover.Proofs.Disk.Files
import Crossover.Proofs.Disk.Reading

namespace Crossover.Command

open DiskAction FileTree

/-! ## §1 Preparing -/

/-- What an optimization has worked out before it writes anything. -/
structure Prepared where
  settings : Settings
  series : Series
  outcome : Outcome

/-- Works out what is to be written. -/
def prepare (data : Path) (source : Option Path) (overrides : Overrides) : Attempt Failure Prepared := do
  let loaded ← loadSettings source
  let settings ← DiskAction.settled (overrides.apply loaded)
  let series ← ExceptT.adapt (Failure.ofLoad data) (Series.load data)
  let outcome ← ExceptT.adapt Failure.ofRun (DiskAction.settled (optimizeSeries settings series))
  return ⟨settings, series, outcome⟩

/-- An optimization prepares, writes, and reports. -/
theorem optimize_eq (data : Path) (source : Option Path) (overrides : Overrides) :
    optimize data source overrides = do
      let r ← prepare data source overrides
      writeAll r.settings r.series r.outcome
      return optimizeLines r.settings r.outcome := by
  simp only [optimize, prepare, bind_assoc, pure_bind]

theorem readOnly_loadSettings (source : Option Path) : ReadOnly (loadSettings source).run := by
  cases source with
  | none => exact Keeps.pure _
  | some p => exact Keeps.adapt _ (Settings.readOnly_load p)

/-- Nothing is changed before everything is worked out. -/
theorem readOnly_prepare (data : Path) (source : Option Path) (overrides : Overrides) :
    ReadOnly (prepare data source overrides).run := by
  refine Keeps.bindAttempt (readOnly_loadSettings source) fun loaded => ?_
  refine Keeps.bindAttempt (Keeps.settled _) fun settings => ?_
  refine Keeps.bindAttempt (Keeps.adapt _ (Series.readOnly_load data)) fun series => ?_
  exact Keeps.bindAttempt (Keeps.adapt _ (Keeps.settled _)) fun outcome => Keeps.pure _

namespace Prepared

/-- The summary with its path, if one is wanted and every window is within the series. -/
def summary? (r : Prepared) : Option (Path × String) :=
  r.settings.summaryPath.bind fun p =>
    ((summaryRows? r.series r.outcome.choices).map (summaryText p)).map (p, ·)

/-- The strategy with its path, if its numbers are not too large. -/
def strategy? (r : Prepared) : Option (Path × String) :=
  (Strategy.ofOutcome r.settings.strategyName r.settings.symbol r.outcome).toToml?.map
    (r.settings.strategyPath, ·)

/-- The paths of the artifacts. -/
def artifacts (r : Prepared) : List Path :=
  r.settings.summaryPath.toList ++ [r.settings.strategyPath]

end Prepared

/-! ## §2 Extents -/

/-- How far the writing of artifacts got: what has been put in its place, and what has only been
staged. -/
structure Extent where
  placed : Option (Path × String)
  staged : Option (Path × String)

/-- The files after a text has been staged, if one has. -/
def afterStaging (v : Files) : Option (Path × String) → Files
  | none => v
  | some (p, text) => v.put p.staging.place text

/-- The files after a text has been staged and put in its place, if one has. -/
def afterPlacing (v : Files) : Option (Path × String) → Files
  | none => v
  | some (p, text) => (v.drop p.staging.place).put p.place text

/-- No artifact is staged where another one belongs. -/
def Apart (artifacts : List Path) : Prop :=
  ∀ p ∈ artifacts, ∀ q ∈ artifacts, p.place ≠ q.staging.place

namespace Extent

/-- The files after writing has got so far. -/
def files (e : Extent) (v : Files) : Files :=
  afterStaging (afterPlacing v e.placed) e.staged

/-- Nothing has come to an artifact that was not there before, and nothing has been taken away. What
was put in place does not matter where something else has been staged over it. -/
def Harmless (e : Extent) (v : Files) (artifacts : List Path) : Prop :=
  ∀ q ∈ artifacts,
    (∀ s ∈ e.staged, q.place = s.1.staging.place → v q.place = some s.2) ∧
      ((∀ s ∈ e.staged, q.place ≠ s.1.staging.place) → ∀ s ∈ e.placed,
        (q.place = s.1.place → v q.place = some s.2) ∧
          (q.place = s.1.staging.place → v q.place = none))

theorem afterPlacing_eq_iff (v : Files) (placed : Option (Path × String)) (q : Place) :
    afterPlacing v placed q = v q ↔ ∀ s ∈ placed,
      (q = s.1.place → v q = some s.2) ∧ (q = s.1.staging.place → v q = none) := by
  cases placed with
  | none => simp [afterPlacing]
  | some s =>
    obtain ⟨p, text⟩ := s
    simp only [afterPlacing, Option.mem_def, Option.some.injEq, forall_eq']
    -- The place of a path and the one where it is staged are two, so at most one of the cases applies.
    by_cases hplace : q = p.place
    · subst hplace
      rw [Files.put_self]
      constructor
      · exact fun h => ⟨fun _ => h.symm, fun heq => absurd heq.symm (staging_place_ne p)⟩
      · exact fun h => (h.1 rfl).symm
    · rw [Files.put_of_ne _ hplace]
      by_cases hstaging : q = p.staging.place
      · subst hstaging
        rw [Files.drop_self]
        constructor
        · exact fun h => ⟨fun heq => absurd heq hplace, fun _ => h.symm⟩
        · exact fun h => (h.2 rfl).symm
      · rw [Files.drop_of_ne _ hstaging]
        exact iff_of_true rfl ⟨fun heq => absurd heq hplace, fun heq => absurd heq hstaging⟩

theorem files_eq_iff (e : Extent) (v : Files) (q : Place) :
    e.files v q = v q ↔
      (∀ s ∈ e.staged, q = s.1.staging.place → v q = some s.2) ∧
        ((∀ s ∈ e.staged, q ≠ s.1.staging.place) → ∀ s ∈ e.placed,
          (q = s.1.place → v q = some s.2) ∧ (q = s.1.staging.place → v q = none)) := by
  rw [← afterPlacing_eq_iff]
  unfold files
  cases e.staged with
  | none => simp [afterStaging]
  | some s =>
    obtain ⟨p, text⟩ := s
    simp only [afterStaging, Option.mem_def, Option.some.injEq, forall_eq']
    by_cases hq : q = p.staging.place
    · rw [hq, Files.put_self]
      simp [eq_comm]
    · rw [Files.put_of_ne _ hq]
      simp [hq]

/-- An extent leaves the artifacts as they were exactly when it is harmless. -/
theorem files_eq_iff_harmless (e : Extent) (v : Files) (artifacts : List Path) :
    (∀ q ∈ artifacts, e.files v q.place = v q.place) ↔ e.Harmless v artifacts := by
  constructor
  · exact fun h q hq => (files_eq_iff e v q.place).1 (h q hq)
  · exact fun h q hq => (files_eq_iff e v q.place).2 (h q hq)

/-- Among artifacts that are apart, only what has been put in its place can do harm. -/
theorem harmless_iff_of_apart {e : Extent} {artifacts : List Path} (h : Apart artifacts)
    (hplaced : ∀ s ∈ e.placed, s.1 ∈ artifacts) (hstaged : ∀ s ∈ e.staged, s.1 ∈ artifacts)
    (v : Files) : e.Harmless v artifacts ↔ ∀ s ∈ e.placed, v s.1.place = some s.2 := by
  constructor
  · intro hharmless s hs
    obtain ⟨-, hrest⟩ := hharmless s.1 (hplaced s hs)
    exact (hrest (fun r hr => h _ (hplaced s hs) _ (hstaged r hr)) s hs).1 rfl
  · intro hsame q hq
    constructor
    · exact fun s hs heq => absurd heq (h q hq _ (hstaged s hs))
    · refine fun _ s hs => ⟨fun heq => heq ▸ hsame s hs, fun heq => ?_⟩
      exact absurd heq (h q hq _ (hplaced s hs))

end Extent

/-! ## §3 Writing -/

/-- Writes a text if there is one. -/
def writeIfAny (p : Path) (text? : Option String) (otherwise : WriteError) : Attempt WriteError Unit :=
  match text? with
  | some text => writeArtifact p text
  | none => throw otherwise

theorem writeSummary_eq (series : Series) (choices : List Choice) (p : Path) :
    writeSummary series choices p =
      writeIfAny p ((summaryRows? series choices).map (summaryText p)) .beyondSeries := by
  unfold writeSummary writeIfAny
  cases summaryRows? series choices <;> rfl

theorem save_eq (s : Strategy) (p : Path) : s.save p = writeIfAny p s.toToml? .tooLarge := by
  unfold Strategy.save writeIfAny
  cases s.toToml? <;> rfl

section Writing

variable {p : Path} {text? : Option String} {otherwise : WriteError} {t u : FileTree}

theorem writeIfAny_eq_ok (h : (writeIfAny p text? otherwise).run.on t = (.ok (), u)) :
    text?.isSome = true ∧ u.fileAt = afterPlacing t.fileAt (text?.map (p, ·)) := by
  cases text? with
  | none => cases h
  | some text => exact ⟨rfl, replace_eq_ok (run_adapt_eq_ok h)⟩

theorem writeIfAny_eq_error {e : WriteError}
    (h : (writeIfAny p text? otherwise).run.on t = (.error e, u)) :
    ∃ staged, (staged = none ∨ staged = text?.map (p, ·)) ∧
      u.fileAt = afterStaging t.fileAt staged := by
  cases text? with
  | none =>
    cases h
    exact ⟨none, .inl rfl, rfl⟩
  | some text =>
    obtain ⟨fault, -, hreplace⟩ := run_adapt_eq_error h
    rcases replace_eq_error hreplace with hsame | hstaged
    · exact ⟨none, .inl rfl, hsame⟩
    · exact ⟨some (p, text), .inr rfl, hstaged⟩

end Writing

/-- The failures of writing, each with how far the writing has got. Before the strategy is written, the
summary has been put in its place if it is wanted. -/
inductive Halted (r : Prepared) : Failure → Extent → Prop where
  | summary (p : Path) (e : WriteError) (staged : Option (Path × String))
      (wanted : r.settings.summaryPath = some p) (hstaged : staged = none ∨ staged = r.summary?) :
      Halted r (Failure.ofWrite "summary" p e) ⟨none, staged⟩
  | strategy (e : WriteError) (staged : Option (Path × String))
      (written : ∀ p ∈ r.settings.summaryPath, ∃ text, r.summary? = some (p, text))
      (hstaged : staged = none ∨ staged = r.strategy?) :
      Halted r (Failure.ofWrite "config" r.settings.strategyPath e) ⟨r.summary?, staged⟩

/-- What comes before the strategy: the summary, if it is wanted. -/
def writeSummaryIfWanted (r : Prepared) : Attempt Failure Unit :=
  match r.settings.summaryPath with
  | none => pure ()
  | some p => ExceptT.adapt (Failure.ofWrite "summary" p) (writeSummary r.series r.outcome.choices p)

theorem writeAll_eq (r : Prepared) :
    writeAll r.settings r.series r.outcome = (do
      writeSummaryIfWanted r
      ExceptT.adapt (Failure.ofWrite "config" r.settings.strategyPath)
        ((Strategy.ofOutcome r.settings.strategyName r.settings.symbol r.outcome).save
          r.settings.strategyPath)) := by
  unfold writeAll writeSummaryIfWanted
  cases r.settings.summaryPath <;> rfl

section Halting

variable {r : Prepared} {t u : FileTree}

theorem writeSummaryIfWanted_eq_ok (h : (writeSummaryIfWanted r).run.on t = (.ok (), u)) :
    (∀ p ∈ r.settings.summaryPath, ∃ text, r.summary? = some (p, text)) ∧
      u.fileAt = afterPlacing t.fileAt r.summary? := by
  unfold writeSummaryIfWanted at h
  unfold Prepared.summary?
  cases hp : r.settings.summaryPath with
  | none =>
    rw [hp] at h
    cases h
    exact ⟨nofun, rfl⟩
  | some p =>
    simp only [hp, writeSummary_eq] at h
    obtain ⟨hsome, hfiles⟩ := writeIfAny_eq_ok (run_adapt_eq_ok h)
    refine ⟨fun q hq => ?_, hfiles⟩
    cases hq
    obtain ⟨text, htext⟩ := Option.isSome_iff_exists.1 hsome
    exact ⟨text, by rw [Option.bind_some, htext]; rfl⟩

theorem writeSummaryIfWanted_eq_error {f : Failure}
    (h : (writeSummaryIfWanted r).run.on t = (.error f, u)) :
    ∃ e, Halted r f e ∧ u.fileAt = e.files t.fileAt := by
  unfold writeSummaryIfWanted at h
  cases hp : r.settings.summaryPath with
  | none =>
    rw [hp] at h
    cases h
  | some p =>
    simp only [hp, writeSummary_eq] at h
    obtain ⟨e, rfl, hwrite⟩ := run_adapt_eq_error h
    obtain ⟨staged, hstaged, hfiles⟩ := writeIfAny_eq_error hwrite
    refine ⟨⟨none, staged⟩, .summary p e staged hp ?_, hfiles⟩
    rw [Prepared.summary?, hp]
    exact hstaged

/-- Writing that fails has got as far as its failure says. -/
theorem writeAll_eq_error {f : Failure}
    (h : (writeAll r.settings r.series r.outcome).run.on t = (.error f, u)) :
    ∃ e, Halted r f e ∧ u.fileAt = e.files t.fileAt := by
  rw [writeAll_eq] at h
  rcases run_bind_eq_error h with hsummary | ⟨_, s, hsummary, hstrategy⟩
  · exact writeSummaryIfWanted_eq_error hsummary
  · obtain ⟨hwritten, hplaced⟩ := writeSummaryIfWanted_eq_ok hsummary
    rw [save_eq] at hstrategy
    obtain ⟨e, rfl, hwrite⟩ := run_adapt_eq_error hstrategy
    obtain ⟨staged, hstaged, hfiles⟩ := writeIfAny_eq_error hwrite
    refine ⟨⟨r.summary?, staged⟩, .strategy e staged hwritten hstaged, ?_⟩
    rw [hfiles, hplaced]
    rfl

end Halting

/-! ## §4 Failures -/

theorem summary?_mem {r : Prepared} {s : Path × String} (h : s ∈ r.summary?) : s.1 ∈ r.artifacts := by
  obtain ⟨p, hp, hrest⟩ := Option.bind_eq_some_iff.1 h
  obtain ⟨text, -, rfl⟩ := Option.map_eq_some_iff.1 hrest
  simp [Prepared.artifacts, hp]

theorem strategy?_mem {r : Prepared} {s : Path × String} (h : s ∈ r.strategy?) : s.1 ∈ r.artifacts := by
  obtain ⟨text, -, rfl⟩ := Option.map_eq_some_iff.1 h
  simp [Prepared.artifacts]

/-- Only artifacts are written. -/
theorem Halted.mem_artifacts {r : Prepared} {f : Failure} {e : Extent} (h : Halted r f e) :
    (∀ s ∈ e.placed, s.1 ∈ r.artifacts) ∧ ∀ s ∈ e.staged, s.1 ∈ r.artifacts := by
  cases h with
  | summary p e staged wanted hstaged =>
    refine ⟨nofun, fun s hs => ?_⟩
    rcases hstaged with rfl | rfl
    · cases hs
    · exact summary?_mem hs
  | strategy e staged written hstaged =>
    refine ⟨fun s hs => summary?_mem hs, fun s hs => ?_⟩
    rcases hstaged with rfl | rfl
    · cases hs
    · exact strategy?_mem hs

/-- An optimization fails while it works things out, and then changes nothing, or while it writes. -/
theorem optimize_eq_error {data : Path} {source : Option Path} {overrides : Overrides}
    {t u : FileTree} {f : Failure} (h : (optimize data source overrides).run.on t = (.error f, u)) :
    ((prepare data source overrides).run.on t = (.error f, t) ∧ u = t) ∨
      ∃ r, (prepare data source overrides).run.on t = (.ok r, t) ∧
        (writeAll r.settings r.series r.outcome).run.on t = (.error f, u) := by
  have hread := readOnly_prepare data source overrides t
  rw [optimize_eq] at h
  rcases run_bind_eq_error h with hprepare | ⟨r, s, hprepare, hrest⟩
  · have hu : u = t := by rwa [hprepare] at hread
    exact .inl ⟨hu ▸ hprepare, hu⟩
  · have hs : s = t := by rwa [hprepare] at hread
    subst hs
    rcases run_bind_eq_error hrest with hwrite | ⟨_, _, _, hreport⟩
    · exact .inr ⟨r, hprepare, hwrite⟩
    · cases hreport

/-- **What a failure leaves behind.** An optimization that fails before it writes changes nothing. One
that fails while it writes has changed exactly the files of its extent, and has left the artifacts as
they were exactly when the extent is harmless: for artifacts that are apart, when the summary had not
been put in its place yet or was there before with the same text. -/
theorem failed_optimize_exactly {data : Path} {source : Option Path} {overrides : Overrides}
    {t u : FileTree} {f : Failure} (h : (optimize data source overrides).run.on t = (.error f, u)) :
    ((prepare data source overrides).run.on t = (.error f, t) ∧ u = t) ∨
      ∃ r e, (prepare data source overrides).run.on t = (.ok r, t) ∧ Halted r f e ∧
        u.fileAt = e.files t.fileAt ∧
        ((∀ q ∈ r.artifacts, u.fileAt q.place = t.fileAt q.place) ↔
          e.Harmless t.fileAt r.artifacts) ∧
        (Apart r.artifacts →
          ((∀ q ∈ r.artifacts, u.fileAt q.place = t.fileAt q.place) ↔
            ∀ s ∈ e.placed, t.fileAt s.1.place = some s.2)) := by
  rcases optimize_eq_error h with hprepare | ⟨r, hprepare, hwrite⟩
  · exact .inl hprepare
  · obtain ⟨e, hhalted, hfiles⟩ := writeAll_eq_error hwrite
    obtain ⟨hplaced, hstaged⟩ := hhalted.mem_artifacts
    have hharmless : (∀ q ∈ r.artifacts, u.fileAt q.place = t.fileAt q.place) ↔
        e.Harmless t.fileAt r.artifacts := by
      rw [hfiles]
      exact e.files_eq_iff_harmless t.fileAt r.artifacts
    refine .inr ⟨r, e, hprepare, hhalted, hfiles, hharmless, fun hapart => ?_⟩
    exact hharmless.trans (Extent.harmless_iff_of_apart hapart hplaced hstaged t.fileAt)

/-- A disk with four prices. -/
def fourPrices : FileTree :=
  ⟨[(["a.csv"], .file "close\n1\n2\n4\n3\n")]⟩

/-- A slow period that is too large for TOML, and a summary besides the strategy. -/
def tooSlow : Overrides :=
  ⟨none, some 2, some 1, some "1", some "9223372036854775808", some ⟨"s.csv"⟩, some ⟨"c.toml"⟩⟩

/-- The strategy cannot be written, and what the summary has become is not harmless. -/
theorem failed_optimize_of_tooSlow : ∃ f u r e,
    (optimize ⟨"a.csv"⟩ none tooSlow).run.on fourPrices = (.error f, u) ∧
      (prepare ⟨"a.csv"⟩ none tooSlow).run.on fourPrices = (.ok r, fourPrices) ∧
      Halted r f e ∧ ¬ e.Harmless fourPrices.fileAt r.artifacts := by
  have hrun : (optimize ⟨"a.csv"⟩ none tooSlow).run.on fourPrices =
      (.error (Failure.ofWrite "config" ⟨"c.toml"⟩ .tooLarge),
        ((optimize ⟨"a.csv"⟩ none tooSlow).run.on fourPrices).2) :=
    Prod.ext rfl rfl
  have hnew : (((optimize ⟨"a.csv"⟩ none tooSlow).run.on fourPrices).2.fileAt ["s.csv"]).isSome = true := by
    decide +kernel
  have hold : fourPrices.fileAt ["s.csv"] = none := by decide
  rcases failed_optimize_exactly hrun with ⟨-, hsame⟩ | ⟨r, e, hprepare, hhalted, -, hharmless, -⟩
  · rw [hsame, hold] at hnew
    cases hnew
  · refine ⟨_, _, r, e, hrun, hprepare, hhalted, fun h => ?_⟩
    have hwanted : ((prepare ⟨"a.csv"⟩ none tooSlow).run.on fourPrices).1.toOption.map
        (fun r => r.settings.summaryPath) = some (some ⟨"s.csv"⟩) := rfl
    rw [hprepare] at hwanted
    have hmem : ⟨"s.csv"⟩ ∈ r.artifacts := by
      have : r.settings.summaryPath = some ⟨"s.csv"⟩ := Option.some.inj hwanted
      simp [Prepared.artifacts, this]
    have hplace : (Path.mk "s.csv").place = ["s.csv"] := by decide
    have hunchanged := hharmless.2 h _ hmem
    rw [hplace] at hunchanged
    rw [hunchanged, hold] at hnew
    cases hnew

/-- An optimization that ends in an error leaves a summary where there was none. -/
theorem optimize_leaves_summary :
    ((optimize ⟨"a.csv"⟩ none tooSlow).run.on fourPrices).1 =
        .error (Failure.ofWrite "config" ⟨"c.toml"⟩ .tooLarge) ∧
      fourPrices.fileAt (Path.mk "s.csv").place = none ∧
      (((optimize ⟨"a.csv"⟩ none tooSlow).run.on fourPrices).2.fileAt
        (Path.mk "s.csv").place).isSome = true :=
  ⟨rfl, by decide, by decide +kernel⟩

end Crossover.Command
