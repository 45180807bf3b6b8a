/-
Crossover.Proofs.Command.Delivery — what an optimization leaves behind when it succeeds.

Each artifact is put in its place by way of a staged file, whose path is that of the artifact and an
ending. The strategy comes last, and nothing is written after it, so it is always there in the end. The
summary comes first, and is still there unless the strategy is staged where the summary is: then the
staged text takes the summary's place, and leaves it with the strategy (`afterPlacing_both`).
`successful_optimize_exactly` puts this together with where the two texts come from.

  §1 Preparing  — what the settings, the prices and the outcome are.
  §2 Placing    — two texts put in their places, one after the other.
  §3 Successes  — all files after an optimization that succeeds.
-/
import Crossover.Proofs.Command.Optimize

namespace Crossover.Command

open DiskAction FileTree

/-! ## §1 Preparing -/

theorem settled_eq_ok {ε α : Type} {x : Except ε α} {a : α} {t u : FileTree}
    (h : (DiskAction.settled x).run.on t = (.ok a, u)) : x = .ok a ∧ u = t := by
  have hpair : (x, t) = (.ok a, u) := h
  cases hpair
  exact ⟨rfl, rfl⟩

/-- What has been worked out is the outcome of optimizing over the prices of the file, by the settings
with what replaces them. -/
theorem prepare_eq_ok {data : Path} {source : Option Path} {overrides : Overrides} {t u : FileTree}
    {r : Prepared} (h : (prepare data source overrides).run.on t = (.ok r, u)) :
    ∃ loaded, (loadSettings source).run.on t = (.ok loaded, t) ∧
      overrides.apply loaded = .ok r.settings ∧ (Series.load data).run.on t = (.ok r.series, t) ∧
      optimizeSeries r.settings r.series = .ok r.outcome := by
  obtain ⟨loaded, t₁, hloaded, hrest⟩ := run_bind_eq_ok h
  obtain ⟨settings, t₂, happlied, hrest⟩ := run_bind_eq_ok hrest
  obtain ⟨series, t₃, hseries, hrest⟩ := run_bind_eq_ok hrest
  obtain ⟨outcome, t₄, houtcome, hrest⟩ := run_bind_eq_ok hrest
  cases hrest
  obtain ⟨hsettings, h₂⟩ := settled_eq_ok happlied
  obtain ⟨hoptimized, -⟩ := settled_eq_ok (run_adapt_eq_ok houtcome)
  have hseries := run_adapt_eq_ok hseries
  -- None of these steps changes the tree.
  have h₁ : t₁ = t := by
    have hread := readOnly_loadSettings source t
    rwa [hloaded] at hread
  have h₃ : t₃ = t₂ := by
    have hread := Series.readOnly_load data t₂
    rwa [hseries] at hread
  subst h₁ h₂ h₃
  exact ⟨loaded, hloaded, hsettings, hseries, hoptimized⟩

/-- An optimization that succeeds has worked everything out and has written it. -/
theorem optimize_eq_ok {data : Path} {source : Option Path} {overrides : Overrides} {t u : FileTree}
    {lines : List String} (h : (optimize data source overrides).run.on t = (.ok lines, u)) :
    ∃ r, (prepare data source overrides).run.on t = (.ok r, t) ∧
      (writeAll r.settings r.series r.outcome).run.on t = (.ok (), u) ∧
      lines = optimizeLines r.settings r.outcome := by
  rw [optimize_eq] at h
  obtain ⟨r, s, hprepare, hrest⟩ := run_bind_eq_ok h
  obtain ⟨_, w, hwrite, hreport⟩ := run_bind_eq_ok hrest
  cases hreport
  have hs : s = t := by
    have hread := readOnly_prepare data source overrides t
    rwa [hprepare] at hread
  subst hs
  exact ⟨r, hprepare, hwrite, rfl⟩

/-- Where the artifacts belong is what an override says, and else what the settings say. -/
theorem Overrides.paths_of_apply {o : Overrides} {loaded s : Settings} (h : o.apply loaded = .ok s) :
    s.summaryPath = (o.summaryPath <|> loaded.summaryPath) ∧
      s.strategyPath = o.strategyPath.getD loaded.strategyPath := by
  unfold Overrides.apply at h
  cases hfast : periodsOr "fast-range" o.fast loaded.sweep.fast with
  | error f =>
    rw [hfast] at h
    cases h
  | ok fast =>
    cases hslow : periodsOr "slow-range" o.slow loaded.sweep.slow with
    | error f =>
      rw [hfast, hslow] at h
      cases h
    | ok slow =>
      rw [hfast, hslow] at h
      cases h
      exact ⟨rfl, rfl⟩

/-! ## §2 Placing -/

section Placing

variable (v : Files) (p : Path) (text : String)

theorem afterPlacing_place : afterPlacing v (some (p, text)) p.place = some text :=
  Files.put_self _ _ _

/-- Nothing is left where a text was staged. -/
theorem afterPlacing_staging : afterPlacing v (some (p, text)) p.staging.place = none := by
  rw [afterPlacing, Files.put_of_ne _ (staging_place_ne p), Files.drop_self]

theorem afterPlacing_of_ne {q : Place} (hplace : q ≠ p.place) (hstaging : q ≠ p.staging.place) :
    afterPlacing v (some (p, text)) q = v q := by
  rw [afterPlacing, Files.put_of_ne _ hplace, Files.drop_of_ne _ hstaging]

/-- Of two texts put in two places, the first one is still there unless the second one was staged over
it. Then its place is empty. -/
theorem afterPlacing_both (q : Path) (later : String) (h : p.place ≠ q.place) :
    afterPlacing (afterPlacing v (some (p, text))) (some (q, later)) p.place =
      if p.place = q.staging.place then none else some text := by
  split
  · rename_i hstaging
    rw [hstaging]
    exact afterPlacing_staging _ q later
  · rename_i hstaging
    rw [afterPlacing_of_ne _ _ _ h hstaging]
    exact afterPlacing_place v p text

end Placing

/-! ## §3 Successes -/

/-- Writing that succeeds puts the summary in its place, if it is wanted, and then the strategy. -/
theorem writeAll_eq_ok {r : Prepared} {t u : FileTree}
    (h : (writeAll r.settings r.series r.outcome).run.on t = (.ok (), u)) :
    (∀ p ∈ r.settings.summaryPath, ∃ text, r.summary? = some (p, text)) ∧
      ∃ text, r.strategy? = some (r.settings.strategyPath, text) ∧
        u.fileAt = afterPlacing (afterPlacing t.fileAt r.summary?) r.strategy? := by
  rw [writeAll_eq] at h
  obtain ⟨_, s, hsummary, hstrategy⟩ := run_bind_eq_ok h
  obtain ⟨hwritten, hplaced⟩ := writeSummaryIfWanted_eq_ok hsummary
  rw [save_eq] at hstrategy
  obtain ⟨hsome, hfiles⟩ := writeIfAny_eq_ok (run_adapt_eq_ok hstrategy)
  obtain ⟨text, htext⟩ := Option.isSome_iff_exists.1 hsome
  refine ⟨hwritten, text, ?_, ?_⟩
  · rw [Prepared.strategy?, htext]
    rfl
  · rw [hfiles, hplaced]
    rfl

/-- The summary that has been worked out is the table of the windows of the outcome. -/
theorem summary?_eq_some {r : Prepared} {p : Path} {text : String}
    (h : r.summary? = some (p, text)) :
    ∃ rows, summaryRows? r.series r.outcome.choices = some rows ∧ text = summaryText p rows := by
  obtain ⟨q, -, h⟩ := Option.bind_eq_some_iff.1 h
  obtain ⟨text', htext, heq⟩ := Option.map_eq_some_iff.1 h
  obtain ⟨rfl, rfl⟩ := Prod.mk.inj heq
  obtain ⟨rows, hrows, rfl⟩ := Option.map_eq_some_iff.1 htext
  exact ⟨rows, hrows, rfl⟩

theorem strategy?_eq_some {r : Prepared} {p : Path} {text : String}
    (h : r.strategy? = some (p, text)) :
    (Strategy.ofOutcome r.settings.strategyName r.settings.symbol r.outcome).toToml? = some text := by
  obtain ⟨text', htext, heq⟩ := Option.map_eq_some_iff.1 h
  obtain ⟨-, rfl⟩ := Prod.mk.inj heq
  exact htext

/-- **What a success leaves behind.** An optimization that succeeds has worked out an outcome, and reports
it. The file of the strategy holds the strategy of that outcome. If a summary is wanted and belongs
elsewhere, its file holds the table of the outcome's windows exactly when the strategy is not staged
there; otherwise there is no such file. No other file has changed, but for those where the two were
staged. -/
theorem successful_optimize_exactly {data : Path} {source : Option Path} {overrides : Overrides}
    {t u : FileTree} {lines : List String}
    (h : (optimize data source overrides).run.on t = (.ok lines, u)) :
    ∃ (r : Prepared) (loaded : Settings), (loadSettings source).run.on t = (.ok loaded, t) ∧
      overrides.apply loaded = .ok r.settings ∧ (Series.load data).run.on t = (.ok r.series, t) ∧
      optimizeSeries r.settings r.series = .ok r.outcome ∧
      lines = optimizeLines r.settings r.outcome ∧
      (∃ text, (Strategy.ofOutcome r.settings.strategyName r.settings.symbol r.outcome).toToml? =
          some text ∧ u.fileAt r.settings.strategyPath.place = some text) ∧
      (∀ p, r.settings.summaryPath = some p → p.place ≠ r.settings.strategyPath.place →
        ∃ rows, summaryRows? r.series r.outcome.choices = some rows ∧
          (u.fileAt p.place = some (summaryText p rows) ↔
            p.place ≠ r.settings.strategyPath.staging.place) ∧
          (p.place = r.settings.strategyPath.staging.place → u.fileAt p.place = none)) ∧
      ∀ q, (∀ p ∈ r.artifacts, q ≠ p.place ∧ q ≠ p.staging.place) → u.fileAt q = t.fileAt q := by
  obtain ⟨r, hprepare, hwrite, hlines⟩ := optimize_eq_ok h
  obtain ⟨loaded, hloaded, hsettings, hseries, houtcome⟩ := prepare_eq_ok hprepare
  obtain ⟨hwanted, strategy, hstrategy, hfiles⟩ := writeAll_eq_ok hwrite
  rw [hstrategy] at hfiles
  refine ⟨r, loaded, hloaded, hsettings, hseries, houtcome, hlines, ?_, ?_, ?_⟩
  · refine ⟨strategy, strategy?_eq_some hstrategy, ?_⟩
    rw [hfiles]
    exact afterPlacing_place _ _ _
  · intro p hp hne
    obtain ⟨text, hsummary⟩ := hwanted p hp
    obtain ⟨rows, hrows, rfl⟩ := summary?_eq_some hsummary
    rw [hsummary] at hfiles
    have hfile : u.fileAt p.place =
        if p.place = r.settings.strategyPath.staging.place then none
        else some (summaryText p rows) := by
      rw [hfiles]
      exact afterPlacing_both t.fileAt p _ r.settings.strategyPath strategy hne
    refine ⟨rows, hrows, ?_, ?_⟩
    · rw [hfile]
      by_cases hover : p.place = r.settings.strategyPath.staging.place
      · simp [hover]
      · simp [hover]
    · intro hover
      rw [hfile, if_pos hover]
  · intro q hq
    obtain ⟨hplace, hstaging⟩ := hq r.settings.strategyPath (by simp [Prepared.artifacts])
    rw [hfiles, afterPlacing_of_ne _ _ _ hplace hstaging]
    cases hsummary : r.summary? with
    | none => rfl
    | some s =>
      obtain ⟨hplace, hstaging⟩ := hq s.1 (summary?_mem hsummary)
      exact afterPlacing_of_ne _ _ _ hplace hstaging

/-- A summary in a file of its own. -/
def summaryBeside : Overrides :=
  ⟨none, some 2, some 1, some "1", some "2", some ⟨"s.csv"⟩, some ⟨"c.toml"⟩⟩

/-- Over four prices both artifacts are left behind. -/
theorem successful_optimize_of_summaryBeside : ∃ lines u series rows text,
    (optimize ⟨"a.csv"⟩ none summaryBeside).run.on fourPrices = (.ok lines, u) ∧
      (Series.load ⟨"a.csv"⟩).run.on fourPrices = (.ok series, fourPrices) ∧
      u.fileAt ["s.csv"] = some (summaryText ⟨"s.csv"⟩ rows) ∧
      u.fileAt ["c.toml"] = some text := by
  have hok : ((optimize ⟨"a.csv"⟩ none summaryBeside).run.on fourPrices).1.toOption.isSome = true := by
    decide +kernel
  cases hrun : (optimize ⟨"a.csv"⟩ none summaryBeside).run.on fourPrices with
  | mk outcome u =>
    rw [hrun] at hok
    cases outcome with
    | error f => cases hok
    | ok lines =>
      obtain ⟨r, loaded, hloaded, hsettings, hseries, -, -, ⟨text, -, hstrategy⟩, hsummary, -⟩ :=
        successful_optimize_exactly hrun
      obtain rfl : loaded = Settings.standard := by
        cases hloaded
        rfl
      obtain ⟨hwanted, hpath⟩ := Overrides.paths_of_apply hsettings
      have hpath : r.settings.strategyPath = ⟨"c.toml"⟩ := hpath
      rw [hpath] at hstrategy hsummary
      have hs : (Path.mk "s.csv").place = ["s.csv"] := by decide
      have hc : (Path.mk "c.toml").place = ["c.toml"] := by decide
      have hstaging : (Path.mk "c.toml").staging.place = ["c.toml.tmp"] := by decide
      obtain ⟨rows, -, hthere, -⟩ := hsummary ⟨"s.csv"⟩ hwanted (by rw [hs, hc]; decide)
      rw [hs, hstaging] at hthere
      exact ⟨lines, u, r.series, rows, text, rfl, hseries, hthere.2 (by decide), hc ▸ hstrategy⟩

/-- A summary that belongs where the strategy is staged. -/
def summaryInTheWay : Overrides :=
  ⟨none, some 2, some 1, some "1", some "2", some ⟨"c.toml.tmp"⟩, some ⟨"c.toml"⟩⟩

/-- An optimization reports a summary that is not there when it ends. -/
theorem optimize_loses_summary :
    (Path.mk "c.toml.tmp").place ≠ (Path.mk "c.toml").place ∧
      (((optimize ⟨"a.csv"⟩ none summaryInTheWay).run.on fourPrices).1.toOption.any fun lines =>
        lines.contains "Summary written to c.toml.tmp") = true ∧
      ((optimize ⟨"a.csv"⟩ none summaryInTheWay).run.on fourPrices).2.fileAt
        (Path.mk "c.toml.tmp").place = none :=
  ⟨by decide, by decide +kernel, by decide +kernel⟩

end Crossover.Command
