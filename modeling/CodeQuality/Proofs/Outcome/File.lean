import CodeQuality.Outcome.File
import CodeQuality.Proofs.Table

/-!
# How the outcome of a file is built up

An outcome begins without issues and scores, and grows by single issues, scores of metrics and
the score of the file. Whatever is added in whatever order, its counters are the numbers of its
issues of each severity.
-/

namespace CodeQuality.FileOutcome

/-- The number of issues of a severity. -/
def countOf (severity : Severity) (issues : List FileIssue) : Nat :=
  issues.countP fun issue => issue.severity = severity

@[simp] theorem countOf_append (severity : Severity) (first second : List FileIssue) :
    countOf severity (first ++ second) = countOf severity first + countOf severity second :=
  List.countP_append

/-- Every issue has one of the three severities. -/
theorem countOf_add_countOf_add_countOf (issues : List FileIssue) :
    countOf .critical issues + countOf .warning issues + countOf .info issues = issues.length := by
  induction issues with
  | nil => rfl
  | cons issue rest ih =>
    simp only [countOf, List.countP_cons, List.length_cons] at ih ⊢
    cases issue.severity <;> simp <;> omega

/-- One issue more is counted once, under its severity. -/
theorem addIssue_eq (outcome : FileOutcome) (issue : FileIssue) :
    outcome.addIssue issue =
      { outcome with
        issues := outcome.issues ++ [issue]
        critical := outcome.critical + countOf .critical [issue]
        warning := outcome.warning + countOf .warning [issue]
        info := outcome.info + countOf .info [issue] } := by
  obtain ⟨metric, severity, message⟩ := issue
  cases severity <;> rfl

/-- Issues one after the other are appended in order and counted. -/
theorem foldl_addIssue (issues : List FileIssue) (outcome : FileOutcome) :
    issues.foldl addIssue outcome =
      { outcome with
        issues := outcome.issues ++ issues
        critical := outcome.critical + countOf .critical issues
        warning := outcome.warning + countOf .warning issues
        info := outcome.info + countOf .info issues } := by
  induction issues generalizing outcome with
  | nil => simp [countOf]
  | cons issue rest ih =>
    have hcount (severity : Severity) :
        countOf severity (issue :: rest) = countOf severity [issue] + countOf severity rest :=
      countOf_append severity [issue] rest
    rw [List.foldl_cons, ih, addIssue_eq]
    simp [hcount, Nat.add_assoc]

/-- The metrics of a file add their scores and their issues, in order. -/
theorem foldl_addMetric (metrics : List MetricOutcome) (outcome : FileOutcome) :
    metrics.foldl addMetric outcome =
      { outcome with
        metricScores := metrics.foldl
          (fun scores metric => scores.insert metric.name (clampScore metric.score))
          outcome.metricScores
        issues := outcome.issues ++ metrics.flatMap issuesOf
        critical := outcome.critical + countOf .critical (metrics.flatMap issuesOf)
        warning := outcome.warning + countOf .warning (metrics.flatMap issuesOf)
        info := outcome.info + countOf .info (metrics.flatMap issuesOf) } := by
  induction metrics generalizing outcome with
  | nil => simp [countOf]
  | cons metric rest ih =>
    rw [List.foldl_cons, ih, addMetric, foldl_addIssue]
    simp [addMetricScore, Nat.add_assoc]

/-- The outcome can be reached from an inventory by adding issues and setting scores. -/
inductive Built : FileOutcome → Prop where
  | ofInventory (inventory : Inventory) : Built (ofInventory inventory)
  | addIssue {outcome : FileOutcome} (h : Built outcome) (issue : FileIssue) :
    Built (outcome.addIssue issue)
  | addMetricScore {outcome : FileOutcome} (h : Built outcome) (metric : String) (score : Float) :
    Built (outcome.addMetricScore metric score)
  | setScore {outcome : FileOutcome} (h : Built outcome) (score : Float) :
    Built (outcome.setScore score)

/-- The counters are the numbers of issues of each severity. -/
structure Tallied (outcome : FileOutcome) : Prop where
  critical_eq : outcome.critical = countOf .critical outcome.issues
  warning_eq : outcome.warning = countOf .warning outcome.issues
  info_eq : outcome.info = countOf .info outcome.issues

/-- One issue more leaves the counters right. -/
theorem Tallied.addIssue {outcome : FileOutcome} (h : outcome.Tallied) (issue : FileIssue) :
    (outcome.addIssue issue).Tallied := by
  rw [addIssue_eq]
  constructor <;> simp [h.critical_eq, h.warning_eq, h.info_eq]

/-- The counters of an outcome are right however it was built. -/
theorem Built.tallied {outcome : FileOutcome} (h : outcome.Built) : outcome.Tallied := by
  induction h with
  | ofInventory inventory => exact ⟨rfl, rfl, rfl⟩
  | addIssue _ issue ih => exact ih.addIssue issue
  | addMetricScore _ metric score ih => exact ⟨ih.critical_eq, ih.warning_eq, ih.info_eq⟩
  | setScore _ score ih => exact ⟨ih.critical_eq, ih.warning_eq, ih.info_eq⟩

/-- The counters add up to the number of issues. -/
theorem Tallied.length_issues {outcome : FileOutcome} (h : outcome.Tallied) :
    outcome.issues.length = outcome.critical + outcome.warning + outcome.info := by
  rw [h.critical_eq, h.warning_eq, h.info_eq, countOf_add_countOf_add_countOf]

end CodeQuality.FileOutcome
