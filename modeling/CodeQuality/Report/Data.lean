import CodeQuality.Json.Writer
import CodeQuality.Outcome.Project

/-!
# Reports as data

The outcome of a project as a JSON document.
-/

namespace CodeQuality.Report

/-- A list of texts. -/
def texts (items : List String) : Value :=
  .list (items.map .text)

/-- A count. -/
def count (n : Nat) : Value :=
  .int n

/-- A table with its entries in order. -/
def tableOf {α : Type} (encode : α → Value) (table : Table α) : Value :=
  .table (table.entries.map fun entry => (entry.1, encode entry.2))

/-- The outcome of a metric. -/
def metric (outcome : MetricOutcome) : Value :=
  .table
    [("name", .text outcome.name),
     ("score", .float outcome.score),
     ("description", .text outcome.description),
     ("weight", .float outcome.weight),
     ("issues", texts outcome.issues)]

/-- An issue. -/
def issue (issue : FileIssue) : Value :=
  .table
    [("metric", .text issue.metric),
     ("severity", .text issue.severity.key),
     ("message", .text issue.message)]

/-- The outcome of a file. -/
def file (outcome : FileOutcome) : Value :=
  .table
    [("path", .text outcome.path),
     ("language", .text outcome.language.key),
     ("score", .float outcome.score),
     ("total_lines", count outcome.lines.total),
     ("code_lines", count outcome.lines.code),
     ("comment_lines", count outcome.lines.comment),
     ("blank_lines", count outcome.lines.blank),
     ("issues", .list (outcome.issues.map issue)),
     ("critical_issues", count outcome.critical),
     ("warning_issues", count outcome.warning),
     ("info_issues", count outcome.info),
     ("metric_scores", tableOf .float outcome.metricScores)]

/-- The outcome of a project. -/
def project (outcome : ProjectOutcome) : Value :=
  .table
    [("overall_score", .float outcome.overallScore),
     ("total_files", count outcome.totalFiles),
     ("total_lines", count outcome.totalLines),
     ("analysis_time_secs", .float outcome.seconds),
     ("metrics", tableOf metric outcome.metrics),
     ("metric_means", tableOf .float outcome.metricMeans),
     ("files", .list (outcome.files.map file)),
     ("total_issues", count outcome.totalIssues),
     ("critical_issues", count outcome.critical),
     ("warning_issues", count outcome.warning),
     ("info_issues", count outcome.info),
     ("incomplete", .bool outcome.incomplete),
     ("skipped_files", texts outcome.skipped)]

/-- The JSON report of a project. -/
def json (outcome : ProjectOutcome) : String :=
  Json.pretty (project outcome)

end CodeQuality.Report
