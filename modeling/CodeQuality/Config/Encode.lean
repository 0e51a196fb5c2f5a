import CodeQuality.Config.Basic
import CodeQuality.Toml.Writer

/-!
# Writing a configuration

The document of a configuration holds all its settings. The default one, with a header that
explains it, is what a new configuration file is made of.
-/

namespace CodeQuality

namespace Encode

/-- A count. -/
def count (n : Nat) : Value :=
  .int n

/-- The weights. -/
def weights (weights : Weights) : Value :=
  .table (MetricKind.all.map fun kind => (kind.name, .float (weights.of kind)))

/-- The limits of all metrics. -/
def thresholds (thresholds : Thresholds) : Value :=
  let complexity := thresholds.complexity
  let length := thresholds.functionLength
  let comments := thresholds.commentRatio
  let duplication := thresholds.duplication
  let layout := thresholds.layout
  .table
    [("complexity", .table
      [("high", count complexity.high),
       ("extreme", count complexity.extreme),
       ("saturation", .float complexity.saturation)]),
     ("function_length", .table
      [("long", count length.long),
       ("very_long", count length.veryLong),
       ("mean_warning", .float length.meanWarning),
       ("saturation", .float length.saturation)]),
     ("comment_ratio", .table
      [("low", .float comments.low),
       ("high", .float comments.high),
       ("ideal", .float comments.ideal)]),
     ("error_handling", .table
      [("min_coverage", .float thresholds.errorHandling.minCoverage)]),
     ("duplication", .table
      [("similarity", .float duplication.similarity),
       ("min_block_lines", count duplication.minBlockLines),
       ("max_block_lines", count duplication.maxBlockLines)]),
     ("structure", .table
      [("max_class_lines", count layout.maxClassLines),
       ("max_function_lines", count layout.maxFunctionLines),
       ("max_parameters", count layout.maxParameters),
       ("max_file_lines", count layout.maxFileLines),
       ("max_classes", count layout.maxClasses),
       ("max_functions", count layout.maxFunctions),
       ("min_comment_ratio", .float layout.minCommentRatio),
       ("min_blank_ratio", .float layout.minBlankRatio)])]

end Encode

namespace Config

/-- The languages, where they are restricted. -/
def languageEntry (config : Config) : List (String × Value) :=
  match config.languages with
  | none => []
  | some languages => [("languages", .list (languages.map fun language => .text language.key))]

/-- The settings as the entries of a document. -/
def entries (config : Config) : List (String × Value) :=
  [("exclude_patterns", .list (config.excludePatterns.map fun pattern => .text pattern.raw))] ++
    config.languageEntry ++
    [("weights", Encode.weights config.weights),
     ("thresholds", Encode.thresholds config.thresholds),
     ("extraction", .table [("deduplicate", .bool config.extraction.deduplicate)]),
     ("parallel", .bool config.parallel),
     ("jobs", Encode.count config.jobs)]

/-- The comment at the head of a new configuration file. -/
def header : String :=
  "# qualmap configuration\n" ++
  "#\n" ++
  "# Weights must sum to 1.0. Thresholds control when metrics raise issues.\n" ++
  "# Exclude patterns are split on `*`; a path is excluded when it contains\n" ++
  "# every remaining segment in order.\n" ++
  "\n"

/-- The text of a new configuration file. -/
def defaultDocument : String :=
  header ++ Toml.document (entries {})

end Config

end CodeQuality
