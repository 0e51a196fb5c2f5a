import CodeQuality.Config.Basic
import CodeQuality.Metric.Assessment
import CodeQuality.Metric.Structure
import CodeQuality.Outcome.File
import CodeQuality.Outcome.Project

/-!
# Analysis

The analysis of one text by all metrics, and of the files of a project.
-/

namespace CodeQuality

/-!
## The panel of metrics

All metrics on one file. Files in languages without rules are not judged.
-/

namespace MetricKind

/-- The metric judges files of the language. -/
def supports (_kind : MetricKind) (language : Language) : Bool :=
  Language.supported.contains language

/-- What the metric makes of a file. -/
def assess (kind : MetricKind) (thresholds : Thresholds) (inventory : Inventory) : Assessment :=
  match kind with
  | cyclomaticComplexity => Metric.complexity thresholds.complexity inventory
  | functionLength => Metric.functionLength thresholds.functionLength inventory
  | commentRatio => Metric.commentRatio thresholds.commentRatio inventory
  | errorHandling => Metric.errorHandling thresholds.errorHandling inventory
  | namingConvention => Metric.naming inventory
  | codeDuplication => Metric.duplication thresholds.duplication inventory
  | structureAnalysis => Metric.layout thresholds.layout inventory

/-- The outcome of the metric with a weight, which is clean where the language is not judged. -/
def outcome (kind : MetricKind) (thresholds : Thresholds) (inventory : Inventory)
    (weight : Float) : MetricOutcome :=
  let assessment :=
    if kind.supports inventory.language then kind.assess thresholds inventory else {}
  MetricOutcome.of kind.name assessment.score kind.description weight assessment.issues

end MetricKind

/-- The outcomes of all metrics that judge the file. -/
def metricOutcomes (thresholds : Thresholds) (weights : Weights) (inventory : Inventory) :
    List MetricOutcome :=
  (MetricKind.all.filter fun kind => kind.supports inventory.language).map fun kind =>
    kind.outcome thresholds inventory (weights.of kind)

/-!
## Texts and files

The analysis of one text, and of the files of a project. Every file of a project is analysed, or
fails to be read, or is passed over because the analysis was cancelled before its turn came.
-/

/-- The analysis of a text as the file at a path. -/
def analyzeText (config : Config) (path : Path) (text : String) : FileAnalysis :=
  let inventory := extract config.extraction path text (Language.ofPath path)
  let metrics := metricOutcomes config.thresholds config.weights inventory
  let judged := metrics.foldl FileOutcome.addMetric (FileOutcome.ofInventory inventory)
  { outcome := judged.setScore (weightedScore metrics), metrics := metrics }

/-- What became of one file. -/
inductive FileResult where
  | analyzed (analysis : FileAnalysis)
  | failed (path : Path)
  | cancelled

namespace FileResult

/-- The analysis of a file, if there is one. -/
def analysis? : FileResult → Option FileAnalysis
  | analyzed analysis => some analysis
  | _ => none

/-- The path of a file that could not be read. -/
def failed? : FileResult → Option Path
  | failed path => some path
  | _ => none

/-- The file was passed over. -/
def isCancelled : FileResult → Bool
  | cancelled => true
  | _ => false

end FileResult

/-- What becomes of a file, given whether the analysis has been cancelled and the text at its
path, if it can be read. -/
def analyzeOne (config : Config) (isCancelled : Bool) (path : Path) (text : Option String) :
    FileResult :=
  if isCancelled then .cancelled
  else
    match text with
    | some text => .analyzed (analyzeText config path text)
    | none => .failed path

/-- The outcome of a project by what became of its files, in the order of their paths. -/
def ProjectOutcome.ofResults (results : List FileResult) (seconds : Float) : ProjectOutcome :=
  { ProjectOutcome.ofAnalyses (results.filterMap FileResult.analysis?) seconds with
    skipped := results.filterMap FileResult.failed?
    incomplete := results.any FileResult.isCancelled }

end CodeQuality
