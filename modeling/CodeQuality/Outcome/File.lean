import CodeQuality.Extraction.Record
import CodeQuality.Score
import CodeQuality.Table

/-!
# The outcomes of metrics and files

Each metric has a score and issues for a file. The outcome of the file puts them together.
-/

namespace CodeQuality

/-!
## The outcome of a metric

A metric's score for one file with the weight it has in the file's score and the issues that it
raises.
-/

/-- The result of one metric on one file. -/
structure MetricOutcome where
  name : String
  score : Float
  description : String
  weight : Float
  issues : List String := []

namespace MetricOutcome

/-- An outcome with the score brought into range. -/
def of (name : String) (score : Float) (description : String) (weight : Float)
    (issues : List String) : MetricOutcome where
  name := name
  score := clampScore score
  description := description
  weight := weight
  issues := issues

end MetricOutcome

/-- The mean score by weight, zero when the weights do not add up to more than that. -/
def weightedScore (outcomes : List MetricOutcome) : Float :=
  weightedMean (outcomes.map fun outcome => (outcome.score, outcome.weight))

/-!
## The outcome of a file

A file's score, the scores of its metrics and its issues, counted by severity.
-/

/-- An issue with the metric that raises it. -/
structure FileIssue where
  metric : String
  severity : Severity
  message : String
  deriving DecidableEq, Repr

/-- The result of the analysis of one file. -/
structure FileOutcome where
  path : Path
  language : Language
  score : Float := 0
  lines : LineCount := {}
  issues : List FileIssue := []
  critical : Nat := 0
  warning : Nat := 0
  info : Nat := 0
  metricScores : Table Float := {}

namespace FileOutcome

/-- The outcome of a file before any metric is taken into account. -/
def ofInventory (inventory : Inventory) : FileOutcome where
  path := inventory.path
  language := inventory.language
  lines := inventory.lines

/-- The outcome with one issue appended, and counted by its severity. -/
def addIssue (outcome : FileOutcome) (issue : FileIssue) : FileOutcome :=
  let appended := { outcome with issues := outcome.issues ++ [issue] }
  match issue.severity with
  | .critical => { appended with critical := outcome.critical + 1 }
  | .warning => { appended with warning := outcome.warning + 1 }
  | .info => { appended with info := outcome.info + 1 }

/-- The outcome with the score of a metric set. -/
def addMetricScore (outcome : FileOutcome) (metric : String) (score : Float) : FileOutcome :=
  { outcome with metricScores := outcome.metricScores.insert metric (clampScore score) }

/-- The outcome with the score of the file set. -/
def setScore (outcome : FileOutcome) (score : Float) : FileOutcome :=
  { outcome with score := clampScore score }

/-- The issues of a metric, all with the severity of its score. -/
def issuesOf (metric : MetricOutcome) : List FileIssue :=
  metric.issues.map fun message => ⟨metric.name, Severity.ofScore metric.score, message⟩

/-- The outcome with the score and the issues of a metric. -/
def addMetric (outcome : FileOutcome) (metric : MetricOutcome) : FileOutcome :=
  (issuesOf metric).foldl addIssue (outcome.addMetricScore metric.name metric.score)

end FileOutcome

/-- The outcome of a file with the outcomes of its metrics. -/
structure FileAnalysis where
  outcome : FileOutcome
  metrics : List MetricOutcome := []

end CodeQuality
