import CodeQuality.Access
import CodeQuality.Analysis
import CodeQuality.Casing
import CodeQuality.Command.Run
import CodeQuality.Command.Settings
import CodeQuality.CommandLine.Argument
import CodeQuality.CommandLine.Command
import CodeQuality.CommandLine.Reading
import CodeQuality.Config.Basic
import CodeQuality.Config.Decode
import CodeQuality.Config.Encode
import CodeQuality.Config.Validation
import CodeQuality.Decimal
import CodeQuality.Duplication.Block
import CodeQuality.Duplication.Similarity
import CodeQuality.Extraction.Extract
import CodeQuality.Extraction.Record
import CodeQuality.Extraction.Source
import CodeQuality.Failure
import CodeQuality.Files.Discovery
import CodeQuality.Files.Disk
import CodeQuality.Files.Host
import CodeQuality.Json.Reader
import CodeQuality.Json.Writer
import CodeQuality.Language
import CodeQuality.LineCount
import CodeQuality.Main
import CodeQuality.Metric.Assessment
import CodeQuality.Metric.Kind
import CodeQuality.Metric.Structure
import CodeQuality.Outcome.File
import CodeQuality.Outcome.Project
import CodeQuality.Path
import CodeQuality.Pattern.Basic
import CodeQuality.Pattern.Build
import CodeQuality.Pattern.Search
import CodeQuality.Proofs.Analysis.Coherence
import CodeQuality.Proofs.Analysis.Outcome
import CodeQuality.Proofs.Analysis.Schedule
import CodeQuality.Proofs.Analysis.Scores
import CodeQuality.Proofs.Config.Exclude
import CodeQuality.Proofs.Config.Validation
import CodeQuality.Proofs.Double.Order
import CodeQuality.Proofs.Double.Packing
import CodeQuality.Proofs.Double.Quotient
import CodeQuality.Proofs.Double.Rounding
import CodeQuality.Proofs.Double.Sum
import CodeQuality.Proofs.Double.Total
import CodeQuality.Proofs.Double.Value
import CodeQuality.Proofs.Duplication.Blocks
import CodeQuality.Proofs.Duplication.EditDistance
import CodeQuality.Proofs.Duplication.Groups
import CodeQuality.Proofs.Duplication.MetricLaws
import CodeQuality.Proofs.Duplication.Pairs
import CodeQuality.Proofs.Duplication.Windows
import CodeQuality.Proofs.Extraction.Agreement
import CodeQuality.Proofs.Extraction.Body
import CodeQuality.Proofs.Extraction.Cuts
import CodeQuality.Proofs.Extraction.Deduplication
import CodeQuality.Proofs.Extraction.Nesting
import CodeQuality.Proofs.Extraction.Record
import CodeQuality.Proofs.Extraction.SelfDelimiting
import CodeQuality.Proofs.Extraction.Translation
import CodeQuality.Proofs.Extraction.WellFormed
import CodeQuality.Proofs.Files.Discovery
import CodeQuality.Proofs.Files.Walk
import CodeQuality.Proofs.LineCount
import CodeQuality.Proofs.LineEnding
import CodeQuality.Proofs.Metric.Agreement
import CodeQuality.Proofs.Metric.Branches
import CodeQuality.Proofs.Metric.LineSpan
import CodeQuality.Proofs.Metric.LogicalLines
import CodeQuality.Proofs.Metric.Naming
import CodeQuality.Proofs.Outcome.File
import CodeQuality.Proofs.Outcome.Project
import CodeQuality.Proofs.Outcome.Ranking
import CodeQuality.Proofs.Outcome.WeightedMean
import CodeQuality.Proofs.Path.Order
import CodeQuality.Proofs.Path.Place
import CodeQuality.Proofs.Pattern.Preferred
import CodeQuality.Proofs.Pattern.Search
import CodeQuality.Proofs.Pattern.Spelling
import CodeQuality.Proofs.Pattern.Translation
import CodeQuality.Proofs.Rules.Signature
import CodeQuality.Proofs.Scan.Balance
import CodeQuality.Proofs.Scan.BlockLines
import CodeQuality.Proofs.Scan.BodyExtent
import CodeQuality.Proofs.Scan.Bracket
import CodeQuality.Proofs.Scan.CodePositions
import CodeQuality.Proofs.Scan.Cut
import CodeQuality.Proofs.Scan.Indentation
import CodeQuality.Proofs.Scan.LineIndex
import CodeQuality.Proofs.Scan.Nesting
import CodeQuality.Proofs.Scan.Parenthesis
import CodeQuality.Proofs.Scan.Run
import CodeQuality.Proofs.Scan.Search
import CodeQuality.Proofs.Scan.Trivia
import CodeQuality.Proofs.Signature.Declaration
import CodeQuality.Proofs.Signature.Depth
import CodeQuality.Proofs.Signature.Heritage
import CodeQuality.Proofs.Signature.Identifier
import CodeQuality.Proofs.Signature.Parameter
import CodeQuality.Proofs.Signature.Parents
import CodeQuality.Proofs.Signature.ReturnType
import CodeQuality.Proofs.Signature.Split
import CodeQuality.Proofs.Signature.StringDefault
import CodeQuality.Proofs.Table
import CodeQuality.Proofs.Text.Blank
import CodeQuality.Proofs.Text.Lines
import CodeQuality.Proofs.Text.Offset
import CodeQuality.Proofs.Text.Search
import CodeQuality.Report.Data
import CodeQuality.Report.Terminal
import CodeQuality.Rules.Basic
import CodeQuality.Rules.CFamily
import CodeQuality.Rules.Table
import CodeQuality.Scan.Code
import CodeQuality.Scan.Lines
import CodeQuality.Score
import CodeQuality.Signature.Heritage
import CodeQuality.Signature.Parameter
import CodeQuality.Signature.Types
import CodeQuality.Table
import CodeQuality.Text.Alphabetic
import CodeQuality.Text.Basic
import CodeQuality.Text.Word
import CodeQuality.Toml.Number
import CodeQuality.Toml.Reader
import CodeQuality.Toml.Text
import CodeQuality.Toml.Tree
import CodeQuality.Toml.Writer
import CodeQuality.Value
