import Crossover.Artifact
import Crossover.Calendar.Civil
import Crossover.Calendar.Instant
import Crossover.Calendar.Layout
import Crossover.Command.Arguments
import Crossover.Command.Run
import Crossover.Command.Usage
import Crossover.Disk.Action
import Crossover.Disk.FileTree
import Crossover.Disk.Path
import Crossover.Disk.Pattern
import Crossover.Disk.Search
import Crossover.Document
import Crossover.Exposure
import Crossover.Indicator
import Crossover.Interchange
import Crossover.Json.Reader
import Crossover.Json.Value
import Crossover.Json.Writer
import Crossover.Label
import Crossover.Main
import Crossover.Notice
import Crossover.Numeric.Binary
import Crossover.Numeric.Decimal
import Crossover.Numeric.Numerals
import Crossover.Numeric.Rounding
import Crossover.Outcome
import Crossover.PeriodList
import Crossover.PriceFile
import Crossover.Proofs.Calendar.Agreement
import Crossover.Proofs.Calendar.Gregorian
import Crossover.Proofs.Calendar.LeapSeconds
import Crossover.Proofs.Calendar.Offsets
import Crossover.Proofs.Calendar.Reading
import Crossover.Proofs.Calendar.RoundTrip
import Crossover.Proofs.Command.Delivery
import Crossover.Proofs.Command.Optimize
import Crossover.Proofs.Disk.Attempt
import Crossover.Proofs.Disk.Files
import Crossover.Proofs.Disk.Moments
import Crossover.Proofs.Disk.Place
import Crossover.Proofs.Disk.Reading
import Crossover.Proofs.Disk.Replacement
import Crossover.Proofs.Guarded.Outcome
import Crossover.Proofs.Guarded.Score
import Crossover.Proofs.Guarded.Slots
import Crossover.Proofs.Guarded.Walk
import Crossover.Proofs.Json.Compact
import Crossover.Proofs.Json.Pretty
import Crossover.Proofs.Label.Order
import Crossover.Proofs.Label.RoundTrip
import Crossover.Proofs.Lists.Alongside
import Crossover.Proofs.Lists.FirstBest
import Crossover.Proofs.Lists.FirstOccurrences
import Crossover.Proofs.Numeric.Count
import Crossover.Proofs.Numeric.Double
import Crossover.Proofs.Numeric.Nearest
import Crossover.Proofs.Numeric.Order
import Crossover.Proofs.Numeric.Ratio
import Crossover.Proofs.Numeric.RoundTrip
import Crossover.Proofs.Numeric.Shortest
import Crossover.Proofs.Numeric.Spelling
import Crossover.Proofs.Outcome.Consistency
import Crossover.Proofs.Outcome.Verdict
import Crossover.Proofs.PeriodList.Grammar
import Crossover.Proofs.Score.Causality
import Crossover.Proofs.Score.OnePass
import Crossover.Proofs.Score.Places
import Crossover.Proofs.Score.Solvency
import Crossover.Proofs.Score.WarmUp
import Crossover.Proofs.Series.Order
import Crossover.Proofs.Strategy.RoundTrip
import Crossover.Proofs.Summary.Chronology
import Crossover.Proofs.Summary.Formats
import Crossover.Proofs.Sweep.Best
import Crossover.Proofs.Sweep.Division
import Crossover.Proofs.Sweep.Repeats
import Crossover.Proofs.Sweep.Search
import Crossover.Proofs.Table.Rows
import Crossover.Proofs.Table.Storage
import Crossover.Proofs.Table.Times
import Crossover.Proofs.Table.Verdict
import Crossover.Proofs.Tally.Best
import Crossover.Proofs.Tally.Groups
import Crossover.Proofs.Tally.Means
import Crossover.Proofs.Tally.Recommendation
import Crossover.Proofs.Text.Digits
import Crossover.Proofs.Text.Natural
import Crossover.Proofs.Text.Trimming
import Crossover.Proofs.Toml.Lines
import Crossover.Proofs.Toml.Strings
import Crossover.Proofs.Walk.Checks
import Crossover.Proofs.Walk.Growth
import Crossover.Proofs.Walk.Isolation
import Crossover.Proofs.Walk.Reference
import Crossover.Proofs.Walk.Shift
import Crossover.Proofs.Walk.Tiling
import Crossover.RunError
import Crossover.Series
import Crossover.Settings
import Crossover.Split
import Crossover.Strategy
import Crossover.Summary
import Crossover.Sweep
import Crossover.Table.Basic
import Crossover.Table.Column
import Crossover.Table.Csv
import Crossover.Table.Field
import Crossover.Tally
import Crossover.Text.Blank
import Crossover.Text.DecimalDigit
import Crossover.Text.Digits
import Crossover.Text.Natural
import Crossover.Toml.Reader
import Crossover.Toml.Scalar
import Crossover.Toml.Value
import Crossover.Toml.Writer
import Crossover.Walk
