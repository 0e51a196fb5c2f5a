import CodeQuality.Decimal
import CodeQuality.Outcome.File
import CodeQuality.Score

/-!
# The outcome of a project

The outcomes of many files together: totals, the mean of each metric, and the mean score of the
files. The outcome of a metric that is kept for the project is the one of the last file that has
it.
-/

namespace CodeQuality

/-- The result of the analysis of many files. -/
structure ProjectOutcome where
  overallScore : Float := 0
  totalFiles : Nat := 0
  totalLines : Nat := 0
  seconds : Float := 0
  metrics : Table MetricOutcome := {}
  metricMeans : Table Float := {}
  files : List FileOutcome := []
  totalIssues : Nat := 0
  critical : Nat := 0
  warning : Nat := 0
  info : Nat := 0
  /-- The analysis was cancelled before all files were done. -/
  incomplete : Bool := false
  /-- The files that could not be read. -/
  skipped : List Path := []

/-- The number of nanoseconds of a second. -/
def nanosecondsPerSecond : Nat := 1000000000

/-- A number of nanoseconds in seconds. -/
def secondsOf (nanoseconds : Nat) : Float :=
  Float.ofNat (nanoseconds / nanosecondsPerSecond) +
    Float.ofNat (nanoseconds % nanosecondsPerSecond) / 1e9

namespace ProjectOutcome

/-- The sums and numbers of the scores of each metric. -/
abbrev Totals := Table (Float × Nat)

/-- The totals with one more score. -/
def addScore (totals : Totals) (metric : MetricOutcome) : Totals :=
  let (sum, count) := (totals.get? metric.name).getD (0, 0)
  totals.insert metric.name (sum + metric.score, count + 1)

/-- The totals of the metrics of all files. -/
def totalsOf (metrics : List MetricOutcome) : Totals :=
  metrics.foldl addScore {}

/-- The last outcome of each metric. -/
def lastOf (metrics : List MetricOutcome) : Table MetricOutcome :=
  metrics.foldl (fun table metric => table.insert metric.name metric) {}

/-- The mean of the files' scores, zero when there are none. -/
def meanScore (files : List FileOutcome) : Float :=
  if files.isEmpty then 0
  else
    let sum := (files.map FileOutcome.score).foldl (· + ·) (-0.0)
    clampScore (sum / Float.ofNat files.length)

/-- The outcome of the files, whose analysis took the given time. -/
def ofAnalyses (analyses : List FileAnalysis) (seconds : Float) : ProjectOutcome :=
  let metrics := analyses.flatMap FileAnalysis.metrics
  let files := analyses.map FileAnalysis.outcome
  { overallScore := meanScore files
    totalFiles := files.length
    totalLines := sumOf (fun file => file.lines.total) files
    seconds := seconds
    metrics := lastOf metrics
    metricMeans := (totalsOf metrics).map fun (sum, count) => clampScore (sum / Float.ofNat count)
    files := files
    totalIssues := sumOf (fun file => file.issues.length) files
    critical := sumOf FileOutcome.critical files
    warning := sumOf FileOutcome.warning files
    info := sumOf FileOutcome.info files }

/-- The key of the total order of doubles: negative ones come before positive ones, and within
each sign the bits decide. -/
def orderKey (score : Float) : Int :=
  let bits := score.toBits.toNat
  if bits < Decimal.signBit then bits else (Decimal.signBit : Int) - bits - 1

/-- The first file has the higher score, or the same score and a path that does not come behind
the other's. -/
def worseFirst (a b : FileOutcome) : Bool :=
  if orderKey a.score = orderKey b.score then Path.le a.path b.path
  else orderKey b.score < orderKey a.score

/-- The files with the highest scores, at most `limit` of them, worst first. -/
def worstFiles (project : ProjectOutcome) (limit : Nat) : List FileOutcome :=
  (project.files.mergeSort worseFirst).take limit

end ProjectOutcome

end CodeQuality
