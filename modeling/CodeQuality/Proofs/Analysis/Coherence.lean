import CodeQuality.Proofs.Analysis.Outcome
import CodeQuality.Proofs.LineCount

/-!
# Coherent analyses

An analysis says the same thing three times: as a list of metric outcomes, as a list of issues
with counters, and as a table of scores. These views are filled one beside the other, and they
agree on every text. Files in languages without rules have their lines counted and nothing else.
-/

namespace CodeQuality

namespace MetricKind

/-- A metric judges the files of every language with rules. -/
theorem supports_eq (kind : MetricKind) (language : Language) :
    kind.supports language = language.isSupported := by
  cases language <;> rfl

/-- Different metrics have different names. -/
theorem nodup_map_name : (all.map name).Nodup := by
  decide

end MetricKind

section Metrics

variable (thresholds : Thresholds) (weights : Weights) (inventory : Inventory)

/-- Where files are judged, they are judged by all metrics in order, each with its weight. -/
theorem metricOutcomes_eq :
    metricOutcomes thresholds weights inventory =
      if inventory.language.isSupported then
        MetricKind.all.map fun kind => kind.outcome thresholds inventory (weights.of kind)
      else [] := by
  rw [metricOutcomes]
  simp only [MetricKind.supports_eq]
  split
  · rename_i hsupported
    simp [hsupported]
  · rename_i hsupported
    simp [hsupported]

/-- The metrics that judge a file have different names. -/
theorem nodup_map_name_metricOutcomes :
    ((metricOutcomes thresholds weights inventory).map MetricOutcome.name).Nodup := by
  rw [metricOutcomes_eq]
  split
  · rw [List.map_map]
    exact MetricKind.nodup_map_name
  · exact List.nodup_nil

end Metrics

/-- The inventory of a text is the one of the language it is read in. -/
theorem extract_language (options : ExtractionOptions) (path : Path) (text : String)
    (language : Language) : (extract options path text language).language = language := by
  rw [extract]
  split <;> rfl

/-- The lines of a text are counted by some comments, whether or not its language has rules. -/
theorem exists_lines_extract_eq (options : ExtractionOptions) (path : Path) (text : String)
    (language : Language) :
    ∃ style, (extract options path text language).lines = LineCount.ofText text.toList style := by
  rw [extract]
  split
  · exact ⟨.slashes, rfl⟩
  · rename_i rules _
    exact ⟨rules.comments, rfl⟩

/-- The views of an analysis agree with each other, with the configuration and with the text. -/
structure FileAnalysis.Coherent (analysis : FileAnalysis) (config : Config) (path : Path)
    (text : String) : Prop where
  path_eq : analysis.outcome.path = path
  language_eq : analysis.outcome.language = Language.ofPath path
  /-- All metrics judge the file in their order and with their weights, or none does. -/
  metrics_eq : analysis.metrics.map (fun metric => (metric.name, metric.weight)) =
    if (Language.ofPath path).isSupported then
      MetricKind.all.map fun kind => (kind.name, config.weights.of kind)
    else []
  /-- The issues are those of the metrics, each with the severity of its metric's score. -/
  issues_eq : analysis.outcome.issues = analysis.metrics.flatMap fun metric =>
    metric.issues.map fun message => ⟨metric.name, Severity.ofScore metric.score, message⟩
  tallied : analysis.outcome.Tallied
  counters_add : analysis.outcome.critical + analysis.outcome.warning + analysis.outcome.info =
    analysis.outcome.issues.length
  scores_sorted : analysis.outcome.metricScores.IsSorted
  scores_keys : ∀ name, name ∈ analysis.outcome.metricScores.keys ↔
    name ∈ analysis.metrics.map MetricOutcome.name
  scores_eq : ∀ metric ∈ analysis.metrics,
    analysis.outcome.metricScores.get? metric.name = some (clampScore metric.score)
  lines_add : analysis.outcome.lines.code + analysis.outcome.lines.comment +
    analysis.outcome.lines.blank = analysis.outcome.lines.total
  lines_eq : analysis.outcome.lines.total = (Text.lines text.toList).length
  score_eq : analysis.outcome.score = clampScore (weightedScore analysis.metrics)

/-- The table of scores that metrics fill. -/
def scoresOf (metrics : List MetricOutcome) : Table Float :=
  metrics.foldl (fun scores metric => scores.insert metric.name (clampScore metric.score)) {}

/-- What the analysis of a text is made of. -/
theorem analyzeText_eq (config : Config) (path : Path) (text : String) :
    let inventory := extract config.extraction path text (Language.ofPath path)
    let metrics := metricOutcomes config.thresholds config.weights inventory
    let issues := metrics.flatMap FileOutcome.issuesOf
    analyzeText config path text =
      { outcome :=
          { path := inventory.path
            language := inventory.language
            score := clampScore (weightedScore metrics)
            lines := inventory.lines
            issues := issues
            critical := FileOutcome.countOf .critical issues
            warning := FileOutcome.countOf .warning issues
            info := FileOutcome.countOf .info issues
            metricScores := scoresOf metrics }
        metrics := metrics } := by
  simp [analyzeText, FileOutcome.foldl_addMetric, FileOutcome.setScore, FileOutcome.ofInventory,
    scoresOf]

/-- The table of scores is in order. -/
theorem isSorted_scoresOf (metrics : List MetricOutcome) : (scoresOf metrics).IsSorted :=
  Table.IsSorted.foldl metrics MetricOutcome.name (fun _ _ => ⟨_, rfl⟩) Table.isSorted_empty

/-- The table of scores has an entry for every metric and no other. -/
theorem mem_keys_scoresOf (metrics : List MetricOutcome) (name : String) :
    name ∈ (scoresOf metrics).keys ↔ name ∈ metrics.map MetricOutcome.name := by
  rw [Table.mem_keys_iff, scoresOf, Table.get?_foldl_insert]
  simp

/-- Where metrics have different names, each one's score stands under its name. -/
theorem get?_scoresOf {metrics : List MetricOutcome}
    (hnames : (metrics.map MetricOutcome.name).Nodup) {metric : MetricOutcome}
    (h : metric ∈ metrics) :
    (scoresOf metrics).get? metric.name = some (clampScore metric.score) := by
  rw [scoresOf, Table.get?_foldl_insert,
    Table.filter_key_eq_singleton metrics MetricOutcome.name hnames h]
  rfl

/-- The analysis of every text is coherent. -/
theorem analyzeText_coherent (config : Config) (path : Path) (text : String) :
    (analyzeText config path text).Coherent config path text := by
  have hlanguage := extract_language config.extraction path text (Language.ofPath path)
  obtain ⟨style, hlines⟩ :=
    exists_lines_extract_eq config.extraction path text (Language.ofPath path)
  have hpath := analyzeText_path config path text
  rw [analyzeText_eq] at hpath ⊢
  exact {
    path_eq := hpath
    language_eq := hlanguage
    metrics_eq := by
      rw [metricOutcomes_eq, hlanguage]
      split
      · rw [List.map_map]
        rfl
      · rfl
    issues_eq := rfl
    tallied := ⟨rfl, rfl, rfl⟩
    counters_add := FileOutcome.countOf_add_countOf_add_countOf _
    scores_sorted := isSorted_scoresOf _
    scores_keys := mem_keys_scoresOf _
    scores_eq := fun _ => get?_scoresOf (nodup_map_name_metricOutcomes _ _ _)
    lines_add := by rw [hlines, LineCount.parts_ofText]
    lines_eq := by rw [hlines, LineCount.total_ofText]
    score_eq := rfl }

end CodeQuality
