/-
Crossover.PriceFile — loading a price series from a file.

The ending of its name says how a file is stored. What cannot be loaded is told apart by the first
of: an unknown ending, nothing at the path, a table that cannot be read, a table that holds no series.
A directory, or a pattern, stands for one table in several files.
-/
import Crossover.Disk.Search
import Crossover.Notice
import Crossover.Table.Basic
import Crossover.Table.Csv

namespace Crossover

open DiskAction

/-! ## 1. Formats -/

inductive PriceFormat where
  | csv
  | parquet
  deriving DecidableEq, Repr

namespace PriceFormat

/-- The format that the ending of a path stands for. -/
def ofPath (p : Path) : Except LoadError PriceFormat :=
  match p.extension? with
  | some "csv" => .ok csv
  | some "parquet" => .ok parquet
  | some ending => .error (.unsupported ("." ++ ending))
  | none => .error (.unsupported p.text)

/-- The table in the texts of some files. Parquet is binary, and no text is a table in it. -/
def table? : PriceFormat → List String → Option Table
  | csv, texts => Csv.readAll? texts
  | parquet, _ => none

end PriceFormat

/-! ## 2. Loading -/

def LoadError.ofMissing (p : Path) : DiskFault → LoadError
  | .notFound => .fileNotFound p.text
  | fault => .disk fault

def Table.load (p : Path) : Attempt LoadError Table := do
  let format ← DiskAction.settled (PriceFormat.ofPath p)
  let kind ← ExceptT.adapt (LoadError.ofMissing p) (kindOf p)
  match (← ExceptT.lift (Search.textsFor? p kind)).bind format.table? with
  | some table => return table
  | none => throw .malformed

def loadPrices (p : Path) : Attempt LoadError (Table × Series) := do
  let table ← Table.load p
  let series ← DiskAction.settled table.series
  return (table, series)

def Series.load (p : Path) : Attempt LoadError Series := do
  let loaded ← loadPrices p
  return loaded.2

def loadNotices (p : Path) (table : Table) (series : Series) : List Notice :=
  (match table.column? Table.timeName with
    | some times => [.indexColumn times.typeName]
    | none => []) ++
  [.loaded series.size p.text series.times.isSome]

end Crossover
