import CodeQuality.Extraction.Extract
import CodeQuality.Language
import CodeQuality.Metric.Kind
import CodeQuality.Path
import CodeQuality.Text.Basic

/-!
# Configuration

What is analysed, and by which weights and limits.
-/

namespace CodeQuality

/-!
## Exclude patterns

A pattern is cut at its stars into segments. A path is excluded when it holds all segments in
order and without overlap. Backslashes count as slashes, and a path that does not begin with a
slash is given one, so that a directory at the top can be named like any other.
-/

open Text

/-- A pattern with the segments between its stars. -/
structure ExcludePattern where
  raw : String
  segments : List (List Char)
  deriving DecidableEq, Repr

namespace ExcludePattern

/-- The text with slashes for backslashes. -/
def normalize (text : String) : List Char :=
  text.toList.map fun c => if c == '\\' then '/' else c

/-- The pattern that a text stands for. -/
def ofText (raw : String) : ExcludePattern where
  raw := raw
  segments := ((normalize raw).splitOn '*').filter fun segment => !segment.isEmpty

/-- The path with a slash in front of it. -/
def rooted (path : Path) : List Char :=
  match normalize path with
  | '/' :: rest => '/' :: rest
  | chars => '/' :: chars

/-- The segments occur in the text one behind the other. Each is taken at its first occurrence
behind the one before. -/
def holdsInOrder : List (List Char) → List Char → Bool
  | [], _ => true
  | segment :: more, text =>
    match find? segment text with
    | some offset => holdsInOrder more (dropBytes (offset + byteLength segment) text)
    | none => false

/-- The pattern excludes the path. A pattern without segments excludes nothing. -/
def excludes (pattern : ExcludePattern) (path : Path) : Bool :=
  !pattern.segments.isEmpty && holdsInOrder pattern.segments (rooted path)

end ExcludePattern

/-!
## Thresholds

The limits by which the metrics score and raise issues.
-/

/-- Limits on decision points. -/
structure ComplexityThresholds where
  /-- Functions above this are listed. -/
  high : Nat := 10
  /-- The most complex function is named when it is above this. -/
  extreme : Nat := 20
  /-- The mean at which the score is one. -/
  saturation : Float := 15

/-- Limits on the length of functions. -/
structure FunctionLengthThresholds where
  long : Nat := 50
  veryLong : Nat := 100
  /-- The mean above which an issue is raised. -/
  meanWarning : Float := 30
  /-- The mean at which the score is one. -/
  saturation : Float := 100

/-- The band of good comment ratios. -/
structure CommentRatioThresholds where
  low : Float := 0.10
  high : Float := 0.50
  ideal : Float := 0.30

/-- The least share of functions that deal with errors. -/
structure ErrorHandlingThresholds where
  minCoverage : Float := 0.30

/-- When functions and blocks of lines count as duplicates. -/
structure DuplicationThresholds where
  /-- Functions are duplicates when they are more alike than this. -/
  similarity : Float := 0.80
  minBlockLines : Nat := 3
  maxBlockLines : Nat := 10

/-- Limits on sizes and signatures. -/
structure StructureThresholds where
  maxClassLines : Nat := 500
  maxFunctionLines : Nat := 100
  maxParameters : Nat := 5
  maxFileLines : Nat := 1000
  maxClasses : Nat := 10
  maxFunctions : Nat := 50
  minCommentRatio : Float := 0.10
  minBlankRatio : Float := 0.05

/-- The limits of all metrics. -/
structure Thresholds where
  complexity : ComplexityThresholds := {}
  functionLength : FunctionLengthThresholds := {}
  commentRatio : CommentRatioThresholds := {}
  errorHandling : ErrorHandlingThresholds := {}
  duplication : DuplicationThresholds := {}
  layout : StructureThresholds := {}

/-!
## Metric weights

How much each metric counts in the score of a file.
-/

/-- The weight of each metric. -/
structure Weights where
  cyclomaticComplexity : Float := 0.20
  functionLength : Float := 0.15
  commentRatio : Float := 0.10
  errorHandling : Float := 0.10
  namingConvention : Float := 0.15
  codeDuplication : Float := 0.15
  structureAnalysis : Float := 0.15

namespace Weights

/-- The weight of a metric. -/
def of (weights : Weights) : MetricKind → Float
  | .cyclomaticComplexity => weights.cyclomaticComplexity
  | .functionLength => weights.functionLength
  | .commentRatio => weights.commentRatio
  | .errorHandling => weights.errorHandling
  | .namingConvention => weights.namingConvention
  | .codeDuplication => weights.codeDuplication
  | .structureAnalysis => weights.structureAnalysis

/-- The sum of the weights in the order of the metrics. It starts from negative zero, the neutral
element of addition. -/
def sum (weights : Weights) : Float :=
  (MetricKind.all.map weights.of).foldl (· + ·) (-0.0)

end Weights

/-! ## Settings -/

/-- The patterns that exclude generated and third-party files. -/
def defaultExcludes : List String :=
  ["**/node_modules/**", "**/dist/**", "**/build/**", "**/.git/**", "**/Library/**",
   "**/Temp/**", "**/obj/**", "**/bin/**"]

/-- The settings of an analysis. -/
structure Config where
  excludePatterns : List ExcludePattern := defaultExcludes.map ExcludePattern.ofText
  /-- The languages to analyse, all supported ones when absent. -/
  languages : Option (List Language) := none
  weights : Weights := {}
  thresholds : Thresholds := {}
  extraction : ExtractionOptions := {}
  parallel : Bool := true
  /-- The number of workers, as many as the machine runs at once when zero. -/
  jobs : Nat := 0

namespace Config

/-- The configuration with one more exclude pattern. -/
def addExclude (config : Config) (pattern : String) : Config :=
  { config with excludePatterns := config.excludePatterns ++ [ExcludePattern.ofText pattern] }

/-- Some pattern excludes the path. -/
def isExcluded (config : Config) (path : Path) : Bool :=
  config.excludePatterns.any fun pattern => pattern.excludes path

/-- Files of the language are analysed. -/
def acceptsLanguage (config : Config) (language : Language) : Bool :=
  language.isSupported &&
    match config.languages with
    | none => true
    | some languages => languages.contains language

/-- The number of workers: the one that is set, or else as many as the machine runs at once, or one
when the machine does not tell. -/
def effectiveJobs (config : Config) (available : Option Nat) : Nat :=
  if 0 < config.jobs then config.jobs else available.getD 1

/-- Files, so many of them, are analysed one after the other. -/
def isSequential (config : Config) (available : Option Nat) (files : Nat) : Bool :=
  !config.parallel || config.effectiveJobs available ≤ 1 || files ≤ 1

end Config

end CodeQuality
