/-!
# Metrics

The seven rules by which a file is judged.
-/

namespace CodeQuality

/-- One of the seven metrics. -/
inductive MetricKind where
  | cyclomaticComplexity
  | functionLength
  | commentRatio
  | errorHandling
  | namingConvention
  | codeDuplication
  | structureAnalysis
  deriving DecidableEq, Repr

namespace MetricKind

/-- All metrics in the order of reports. -/
def all : List MetricKind :=
  [cyclomaticComplexity, functionLength, commentRatio, errorHandling, namingConvention,
   codeDuplication, structureAnalysis]

/-- The key of a metric in configurations and reports. -/
def name : MetricKind → String
  | cyclomaticComplexity => "cyclomatic_complexity"
  | functionLength => "function_length"
  | commentRatio => "comment_ratio"
  | errorHandling => "error_handling"
  | namingConvention => "naming_convention"
  | codeDuplication => "code_duplication"
  | structureAnalysis => "structure_analysis"

/-- The title of a metric in tables. -/
def label : MetricKind → String
  | cyclomaticComplexity => "Cyclomatic complexity"
  | functionLength => "Function length"
  | commentRatio => "Comment ratio"
  | errorHandling => "Error handling"
  | namingConvention => "Naming convention"
  | codeDuplication => "Code duplication"
  | structureAnalysis => "Structure"

/-- What a metric measures, in words. -/
def description : MetricKind → String
  | cyclomaticComplexity =>
    "Decision points per function; branchy functions are hard to test and reason about"
  | functionLength => "Logical lines per function; long functions are hard to read and maintain"
  | commentRatio => "Share of comment lines; both too few and too many hurt comprehension"
  | errorHandling => "Share of functions with any error handling or defensive checks"
  | namingConvention => "Share of identifiers that break the naming convention of their language"
  | codeDuplication => "Near-identical functions and repeated blocks of lines"
  | structureAnalysis => "Size, signature and layout checks on classes, functions and the file"

/-- The metric with a key. -/
def ofName? (text : String) : Option MetricKind :=
  all.find? fun kind => kind.name == text

end MetricKind

end CodeQuality
