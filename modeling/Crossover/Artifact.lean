/-
Crossover.Artifact — writing what a run leaves behind.

An artifact is rendered in full before anything is written, and written by `DiskAction.replace`.
-/
import Crossover.Disk.Action
import Crossover.Strategy
import Crossover.Summary

namespace Crossover

open DiskAction

/-! ## 1. Errors -/

/-- Why an artifact could not be written. -/
inductive WriteError where
  | disk (fault : DiskFault)
  /-- A number is too large for TOML. -/
  | tooLarge
  /-- A window reaches beyond the series. -/
  | beyondSeries
  deriving DecidableEq, Repr

namespace WriteError

def cause : WriteError → String
  | disk fault => fault.message
  | tooLarge => "out-of-range value for u64 type"
  | beyondSeries => "a window reaches beyond the series"

def message : WriteError → String
  | disk fault => "IO error: " ++ fault.message
  | tooLarge => "TOML error: " ++ tooLarge.cause
  | beyondSeries => beyondSeries.cause

end WriteError

/-! ## 2. Writing -/

def writeArtifact (p : Path) (text : String) : Attempt WriteError Unit :=
  ExceptT.adapt WriteError.disk (replace p text)

def writeSummary (series : Series) (choices : List Choice) (p : Path) : Attempt WriteError Unit :=
  match summaryRows? series choices with
  | some rows => writeArtifact p (summaryText p rows)
  | none => throw .beyondSeries

def Strategy.save (s : Strategy) (p : Path) : Attempt WriteError Unit :=
  match s.toToml? with
  | some text => writeArtifact p text
  | none => throw .tooLarge

end Crossover
