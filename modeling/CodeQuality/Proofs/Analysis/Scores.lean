import CodeQuality.Analysis
import CodeQuality.Proofs.Double.Value
import CodeQuality.Proofs.Outcome.File
import CodeQuality.Proofs.Outcome.WeightedMean

/-!
# Scores in range

Whatever doubles a configuration holds and whatever is computed with them, every score that an
outcome holds is a number from zero to one. Scores are brought into that range where they are
stored, so this is shown for each way in which outcomes are built up, and then for the analysis of
texts and of projects.

Main statement: all scores are in range, and in exact arithmetic the score of a file is a mean of
the scores of its metrics.
-/

namespace CodeQuality

/-- The double is a number from zero to one. -/
structure IsScore (value : Float) : Prop where
  isNumber : value.isNaN = false
  zero_le : 0 ≤ value
  le_one : value ≤ 1

theorem isScore_zero : IsScore 0 := ⟨rfl, by decide, by decide⟩

theorem isScore_one : IsScore 1 := ⟨rfl, by decide, by decide⟩

/-- Whatever is clamped becomes a score. -/
theorem isScore_clampScore (value : Float) : IsScore (clampScore value) := by
  rw [clampScore]
  split
  · exact isScore_zero
  · rename_i hnumber
    rw [Bool.not_eq_true] at hnumber
    rw [clampUnit]
    split
    · exact isScore_zero
    · rename_i hzero
      split
      · exact isScore_one
      · rename_i hone
        exact ⟨hnumber, Double.le_of_not_lt hnumber rfl hzero, Double.le_of_not_lt rfl hnumber hone⟩

/-! ## Outcomes of metrics and files -/

/-- The outcome of a metric has been built with its score brought into range. -/
def MetricOutcome.Made (metric : MetricOutcome) : Prop :=
  ∃ name score description weight issues, metric = .of name score description weight issues

theorem MetricOutcome.Made.isScore {metric : MetricOutcome} (h : metric.Made) :
    IsScore metric.score := by
  obtain ⟨name, score, description, weight, issues, rfl⟩ := h
  exact isScore_clampScore score

namespace FileOutcome

/-- All scores of a file are in range. -/
structure Scored (outcome : FileOutcome) : Prop where
  score : IsScore outcome.score
  metricScores : ∀ entry ∈ outcome.metricScores.entries, IsScore entry.2

/-- The scores of a file are in range however its outcome was built. -/
theorem Built.scored {outcome : FileOutcome} (h : outcome.Built) : outcome.Scored := by
  induction h with
  | ofInventory inventory => exact ⟨isScore_zero, fun _ hentry => absurd hentry List.not_mem_nil⟩
  | @addIssue outcome _ issue ih =>
    rw [addIssue_eq]
    exact ⟨ih.score, ih.metricScores⟩
  | addMetricScore _ metric score ih =>
    refine ⟨ih.score, fun entry hentry => ?_⟩
    rcases Table.eq_or_mem_of_mem_insert hentry with rfl | hentry
    · exact isScore_clampScore score
    · exact ih.metricScores entry hentry
  | setScore _ score ih => exact ⟨isScore_clampScore score, ih.metricScores⟩

theorem Built.foldl_addIssue {outcome : FileOutcome} (h : outcome.Built)
    (issues : List FileIssue) : (issues.foldl FileOutcome.addIssue outcome).Built := by
  induction issues generalizing outcome with
  | nil => exact h
  | cons issue rest ih => exact ih (h.addIssue issue)

/-- Taking metrics into account is a sequence of single steps. -/
theorem Built.foldl_addMetric {outcome : FileOutcome} (h : outcome.Built)
    (metrics : List MetricOutcome) : (metrics.foldl FileOutcome.addMetric outcome).Built := by
  induction metrics generalizing outcome with
  | nil => exact h
  | cons metric rest ih =>
    exact ih ((h.addMetricScore metric.name metric.score).foldl_addIssue (issuesOf metric))

end FileOutcome

/-- The analysis of a file has been built by single steps. -/
structure FileAnalysis.Made (analysis : FileAnalysis) : Prop where
  outcome : analysis.outcome.Built
  metrics : ∀ metric ∈ analysis.metrics, metric.Made

/-- All scores of an analysis are in range. -/
structure FileAnalysis.Scored (analysis : FileAnalysis) : Prop where
  outcome : analysis.outcome.Scored
  metrics : ∀ metric ∈ analysis.metrics, IsScore metric.score

theorem FileAnalysis.Made.scored {analysis : FileAnalysis} (h : analysis.Made) :
    analysis.Scored where
  outcome := h.outcome.scored
  metrics := fun metric hmetric => (h.metrics metric hmetric).isScore

/-- The analysis of a text is built by single steps, whatever the configuration. -/
theorem analyzeText_made (config : Config) (path : Path) (text : String) :
    (analyzeText config path text).Made where
  outcome := ((FileOutcome.Built.ofInventory _).foldl_addMetric _).setScore _
  metrics := by
    intro metric hmetric
    obtain ⟨kind, -, rfl⟩ := List.mem_map.mp hmetric
    exact ⟨_, _, _, _, _, rfl⟩

/-! ## Outcomes of projects -/

namespace ProjectOutcome

/-- All scores of a project and of its files are in range. -/
structure Scored (outcome : ProjectOutcome) : Prop where
  overallScore : IsScore outcome.overallScore
  metricMeans : ∀ entry ∈ outcome.metricMeans.entries, IsScore entry.2
  metrics : ∀ entry ∈ outcome.metrics.entries, IsScore entry.2.score
  files : ∀ file ∈ outcome.files, file.Scored

theorem isScore_meanScore (files : List FileOutcome) : IsScore (meanScore files) := by
  rw [meanScore]
  split
  · exact isScore_zero
  · exact isScore_clampScore _

/-- The table of the last outcomes holds only outcomes of the list. -/
theorem mem_of_mem_lastOf {metrics : List MetricOutcome} {entry : String × MetricOutcome}
    (h : entry ∈ (lastOf metrics).entries) : entry.2 ∈ metrics := by
  rcases Table.mem_or_exists_of_mem_foldl_insert metrics MetricOutcome.name id h with
    hfirst | ⟨metric, hmetric, rfl⟩
  · exact absurd hfirst List.not_mem_nil
  · exact hmetric

/-- The scores of a project are in range when its files have been analysed step by step. -/
theorem scored_ofAnalyses {analyses : List FileAnalysis}
    (h : ∀ analysis ∈ analyses, analysis.Made) (seconds : Float) :
    (ofAnalyses analyses seconds).Scored where
  overallScore := isScore_meanScore _
  metricMeans := by
    intro entry hentry
    obtain ⟨total, -, rfl⟩ := List.mem_map.mp hentry
    exact isScore_clampScore _
  metrics := by
    intro entry hentry
    obtain ⟨analysis, hanalysis, hmetric⟩ := List.mem_flatMap.mp (mem_of_mem_lastOf hentry)
    exact (h analysis hanalysis).scored.metrics entry.2 hmetric
  files := by
    intro file hfile
    obtain ⟨analysis, hanalysis, rfl⟩ := List.mem_map.mp hfile
    exact (h analysis hanalysis).scored.outcome

/-- The scores of a project are in range whatever becomes of its files. -/
theorem scored_ofResults (config : Config) (files : List (Bool × Path × Option String))
    (seconds : Float) :
    (ofResults (files.map fun (isCancelled, path, text) => analyzeOne config isCancelled path text)
      seconds).Scored := by
  have hmade : ∀ analysis ∈ (files.map fun (isCancelled, path, text) =>
      analyzeOne config isCancelled path text).filterMap FileResult.analysis?, analysis.Made := by
    intro analysis hanalysis
    obtain ⟨result, hresult, hsome⟩ := List.mem_filterMap.mp hanalysis
    obtain ⟨⟨isCancelled, path, text⟩, -, rfl⟩ := List.mem_map.mp hresult
    cases isCancelled <;> cases text <;> cases hsome
    exact analyzeText_made config path _
  obtain ⟨hoverall, hmeans, hmetrics, hfiles⟩ := scored_ofAnalyses hmade seconds
  exact ⟨hoverall, hmeans, hmetrics, hfiles⟩

end ProjectOutcome

/-- Every score is a number from zero to one, for all doubles that outcomes are built from and for
all configurations and files. The score of a file is a mean by weights, and in exact arithmetic
that mean lies among the scores with a weight, so that clamping leaves it as it is, and depends
neither on the order of the metrics, nor on those without a weight, nor on the unit of the
weights. -/
theorem scores_in_unit_interval :
    (∀ name score description weight issues,
      IsScore (MetricOutcome.of name score description weight issues).score) ∧
    (∀ outcome : FileOutcome, outcome.Built → outcome.Scored) ∧
    (∀ analyses seconds, (∀ analysis ∈ analyses, analysis.Made) →
      (ProjectOutcome.ofAnalyses analyses seconds).Scored) ∧
    (∀ config path text, (analyzeText config path text).Scored) ∧
    (∀ config (files : List (Bool × Path × Option String)) seconds,
      (ProjectOutcome.ofResults (files.map fun (isCancelled, path, text) =>
        analyzeOne config isCancelled path text) seconds).Scored) ∧
    (∀ outcomes, weightedScore outcomes =
      weightedMean (outcomes.map fun outcome => (outcome.score, outcome.weight))) ∧
    IsMean weightedMean :=
  ⟨fun _ score _ _ _ => isScore_clampScore score,
    fun _ hbuilt => hbuilt.scored,
    fun _ seconds hmade => ProjectOutcome.scored_ofAnalyses hmade seconds,
    fun config path text => (analyzeText_made config path text).scored,
    ProjectOutcome.scored_ofResults,
    fun _ => rfl,
    isMean_weightedMean⟩

/-- Scores of all kinds that are out of range, and a mean with a metric that has no weight. -/
theorem scores_in_unit_interval_extreme :
    let metric := MetricOutcome.of "naming" (-1 / 0) "" (0 / 0) []
    let outcome := ((FileOutcome.ofInventory { path := "a.go", language := .go }).addMetricScore
      "naming" (1 / 0)).setScore (0 / 0)
    let entries : List (ℚ × ℚ) := [(1, 0), (1 / 4, 1), (1 / 2, 3)]
    IsScore metric.score ∧ outcome.Scored ∧
      (ProjectOutcome.ofAnalyses [⟨outcome, [metric]⟩] 0).Scored ∧
      IsWeighting entries ∧ weightedMean entries = 7 / 16 ∧
      weightedMean [(1 / 4, 1), (1 / 2, 3)] = weightedMean entries := by
  intro metric outcome entries
  obtain ⟨hmetric, houtcome, hproject, -, -, -, hmean⟩ := scores_in_unit_interval
  have hbuilt : outcome.Built := .setScore (.addMetricScore (.ofInventory _) _ _) _
  have hmade : ∀ analysis ∈ [(⟨outcome, [metric]⟩ : FileAnalysis)], analysis.Made := by
    intro analysis hanalysis
    obtain rfl := List.mem_singleton.mp hanalysis
    exact ⟨hbuilt, fun _ hmem => List.mem_singleton.mp hmem ▸ ⟨_, _, _, _, _, rfl⟩⟩
  have hweighting : IsWeighting entries := by
    constructor
    · simp [entries]
    · norm_num [entries, totalWeight]
  have hperm : entries.Perm ([(1 / 4, 1), (1 / 2, 3)] ++ [(1, 0)]) :=
    (List.perm_append_singleton ..).symm
  refine ⟨hmetric .., houtcome outcome hbuilt, hproject _ 0 hmade, hweighting, ?_, ?_⟩
  · rw [hmean.eq_div entries hweighting]
    norm_num [entries, weightedSum, totalWeight]
  · exact hmean.drop entries _ [(1, 0)] hweighting hperm (by simp)

end CodeQuality
