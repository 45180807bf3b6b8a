/-
Crossover.Table.Basic — tables, and the price series in them.

A table holds columns of one length under different names. Its series takes the closing prices from
the column `close`, and the times, if there are any, from the column `timestamp`. Prices are judged
before times.
-/
import Crossover.Table.Column
import Crossover.Disk.FileTree

namespace Crossover

/-! ## 1. Tables -/

structure Column where
  name : String
  cells : Cells

/-- Columns side by side. -/
structure Table where
  columns : List Column

namespace Table

/-- The column of closing prices. -/
def closeName : String := "close"

/-- The column of times. -/
def timeName : String := "timestamp"

/-- Whether some columns have one length and different names. -/
def fit (columns : List Column) : Bool :=
  let names := columns.map Column.name
  names.eraseDups.length == names.length &&
    match columns with
    | [] => true
    | first :: rest => rest.all fun c => c.cells.rows == first.cells.rows

/-- The table of some columns that fit together. -/
def of? (columns : List Column) : Option Table :=
  if fit columns then some ⟨columns⟩ else none

def column? (t : Table) (name : String) : Option Cells :=
  (t.columns.find? fun c => c.name == name).map Column.cells

end Table

/-! ## 2. Loading -/

/-- Why no series could be loaded. -/
inductive LoadError where
  | fileNotFound (path : String)
  | unsupported (format : String)
  | missingColumn (name : String)
  | invalid (fault : DataFault)
  /-- The table cannot be read at all, or its closing prices cannot be made doubles. -/
  | malformed
  | disk (fault : DiskFault)

def LoadError.message : LoadError → String
  | fileNotFound path => "File not found: " ++ path
  | unsupported format => "Unsupported extension: " ++ format
  | missingColumn name => "Input data must contain a '" ++ name ++ "' column"
  | invalid fault => "Invalid data: " ++ fault.message
  | malformed => "Polars error: no table"
  | disk fault => "IO error: " ++ fault.message

def LoadError.cause? : LoadError → Option String
  | malformed => some "no table"
  | disk fault => some fault.message
  | _ => none

/-- The closing prices in a column. -/
def Cells.closes (c : Cells) : Except LoadError (List Float) :=
  match c.prices? with
  | none => .error .malformed
  | some prices =>
    match readRows closeOf 0 prices with
    | .error fault => .error (.invalid fault)
    | .ok closes => .ok closes

namespace Table

/-- The series of closing prices and times, once the prices are found sound. -/
def timedSeries (closes : List Float) (times : Cells) : Except DataFault Series :=
  match times.times with
  | .error fault => .error fault
  | .ok instants =>
    match Series.ofTimed closes instants with
    | .error fault => .error (.series fault)
    | .ok series => .ok series

def series (t : Table) : Except LoadError Series :=
  match t.column? closeName with
  | none => .error (.missingColumn closeName)
  | some cells =>
    match cells.closes with
    | .error e => .error e
    | .ok closes =>
      match t.column? timeName with
      | some times =>
        match timedSeries closes times with
        | .error fault => .error (.invalid fault)
        | .ok series => .ok series
      | none =>
        match Series.ofCloses closes with
        | .error fault => .error (.invalid (.series fault))
        | .ok series => .ok series

end Table

end Crossover
