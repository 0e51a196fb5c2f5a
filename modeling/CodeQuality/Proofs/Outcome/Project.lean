import CodeQuality.Outcome.Project
import CodeQuality.Proofs.Outcome.File

/-!
# Outcomes of projects put together

The outcome of some files followed by others is made of the two outcomes: the files stand one
behind the other, the counts add up, and the metric outcomes are those of both, where the later
ones count. Only the means and the time are not made up like this. The counts do not depend on the
order of the files, nor do the names of the means.
-/

namespace CodeQuality

/-- The sum over a list does not depend on its order. -/
theorem sumOf_perm {α : Type} (measure : α → Nat) {first second : List α}
    (h : first.Perm second) : sumOf measure first = sumOf measure second := by
  induction h with
  | nil => rfl
  | cons item _ ih => rw [sumOf_cons, sumOf_cons, ih]
  | swap item other rest => simp only [sumOf_cons]; omega
  | trans _ _ ihfirst ihsecond => exact ihfirst.trans ihsecond

namespace ProjectOutcome

/-- The outcome is made of two others, except for its means and its time. -/
structure Joins (whole first second : ProjectOutcome) : Prop where
  files_eq : whole.files = first.files ++ second.files
  totalFiles_eq : whole.totalFiles = first.totalFiles + second.totalFiles
  totalLines_eq : whole.totalLines = first.totalLines + second.totalLines
  totalIssues_eq : whole.totalIssues = first.totalIssues + second.totalIssues
  critical_eq : whole.critical = first.critical + second.critical
  warning_eq : whole.warning = first.warning + second.warning
  info_eq : whole.info = first.info + second.info
  /-- Under a name that both have, the outcome of the second one is kept. -/
  metrics_eq : ∀ name, whole.metrics.get? name =
    (second.metrics.get? name).or (first.metrics.get? name)

/-- The outcome keeps of the given metric outcomes the last one of each name, and has a mean for
each name. -/
structure Keeps (outcome : ProjectOutcome) (metrics : List MetricOutcome) : Prop where
  metrics_sorted : outcome.metrics.IsSorted
  metrics_eq : ∀ name, outcome.metrics.get? name =
    (metrics.filter fun metric => metric.name = name).getLast?
  means_keys : outcome.metricMeans.keys = outcome.metrics.keys

/-- The two outcomes count the same and have means of the same metrics. -/
structure CountsAlike (outcome other : ProjectOutcome) : Prop where
  totalFiles_eq : outcome.totalFiles = other.totalFiles
  totalLines_eq : outcome.totalLines = other.totalLines
  totalIssues_eq : outcome.totalIssues = other.totalIssues
  critical_eq : outcome.critical = other.critical
  warning_eq : outcome.warning = other.warning
  info_eq : outcome.info = other.info
  means_keys : outcome.metricMeans.keys = other.metricMeans.keys

/-- Under each name the last outcome of that name is kept. -/
theorem get?_lastOf (metrics : List MetricOutcome) (name : String) :
    (lastOf metrics).get? name = (metrics.filter fun metric => metric.name = name).getLast? := by
  have hget := Table.get?_foldl_insert metrics MetricOutcome.name id {} name
  rw [Table.get?_empty, Option.or_none] at hget
  simpa [lastOf] using hget

/-- The last outcomes of more metrics are the last of the later ones, or else of the earlier. -/
theorem get?_lastOf_append (first second : List MetricOutcome) (name : String) :
    (lastOf (first ++ second)).get? name =
      ((lastOf second).get? name).or ((lastOf first).get? name) := by
  simp only [get?_lastOf, List.filter_append, List.getLast?_append]

/-- The names of the outcomes that are kept. -/
theorem mem_keys_lastOf (metrics : List MetricOutcome) (name : String) :
    name ∈ (lastOf metrics).keys ↔ name ∈ metrics.map MetricOutcome.name := by
  rw [Table.mem_keys_iff, get?_lastOf, List.getLast?_isSome]
  simp

/-- A score is added under the name of its metric. -/
theorem exists_addScore_eq (totals : Totals) (metric : MetricOutcome) :
    ∃ value, addScore totals metric = totals.insert metric.name value :=
  ⟨_, rfl⟩

/-- The names of the totals. -/
theorem mem_keys_totalsOf (metrics : List MetricOutcome) (name : String) :
    name ∈ (totalsOf metrics).keys ↔ name ∈ metrics.map MetricOutcome.name := by
  have hkeys := Table.mem_keys_foldl metrics MetricOutcome.name exists_addScore_eq {} name
  rw [Table.keys_empty] at hkeys
  simpa [totalsOf] using hkeys

theorem isSorted_lastOf (metrics : List MetricOutcome) : (lastOf metrics).IsSorted :=
  Table.IsSorted.foldl metrics MetricOutcome.name (fun _ _ => ⟨_, rfl⟩) Table.isSorted_empty

theorem isSorted_totalsOf (metrics : List MetricOutcome) : (totalsOf metrics).IsSorted :=
  Table.IsSorted.foldl metrics MetricOutcome.name exists_addScore_eq Table.isSorted_empty

/-- There is a mean for every metric of the files. -/
theorem mem_keys_metricMeans (analyses : List FileAnalysis) (seconds : Float) (name : String) :
    name ∈ (ofAnalyses analyses seconds).metricMeans.keys ↔
      ∃ analysis ∈ analyses, ∃ metric ∈ analysis.metrics, metric.name = name := by
  have hkeys : (ofAnalyses analyses seconds).metricMeans.keys =
      (totalsOf (analyses.flatMap FileAnalysis.metrics)).keys :=
    Table.keys_map _ _
  rw [hkeys, mem_keys_totalsOf]
  simp only [List.mem_map, List.mem_flatMap]
  constructor
  · rintro ⟨metric, ⟨analysis, hanalysis, hmetric⟩, hname⟩
    exact ⟨analysis, hanalysis, metric, hmetric, hname⟩
  · rintro ⟨analysis, hanalysis, metric, hmetric, hname⟩
    exact ⟨metric, ⟨analysis, hanalysis, hmetric⟩, hname⟩

/-- The outcome of files and more files is made of the two outcomes. -/
theorem ofAnalyses_append (first second : List FileAnalysis)
    (seconds firstSeconds secondSeconds : Float) :
    (ofAnalyses (first ++ second) seconds).Joins (ofAnalyses first firstSeconds)
      (ofAnalyses second secondSeconds) := by
  constructor
  case metrics_eq =>
    intro name
    simp only [ofAnalyses, List.flatMap_append]
    exact get?_lastOf_append _ _ name
  all_goals simp [ofAnalyses]

/-- The outcome keeps the last outcome of each metric of its files. -/
theorem keeps_ofAnalyses (analyses : List FileAnalysis) (seconds : Float) :
    (ofAnalyses analyses seconds).Keeps (analyses.flatMap FileAnalysis.metrics) where
  metrics_sorted := isSorted_lastOf _
  metrics_eq := get?_lastOf _
  means_keys := by
    have hkeys : (totalsOf (analyses.flatMap FileAnalysis.metrics)).keys =
        (lastOf (analyses.flatMap FileAnalysis.metrics)).keys := by
      apply (isSorted_totalsOf _).keys_eq (isSorted_lastOf _)
      intro name
      rw [mem_keys_totalsOf, mem_keys_lastOf]
    exact (Table.keys_map _ _).trans hkeys

/-- When the counters of all files are right, the counts of the project add up. -/
theorem totalIssues_ofAnalyses {analyses : List FileAnalysis}
    (h : ∀ analysis ∈ analyses, analysis.outcome.Tallied) (seconds : Float) :
    let outcome := ofAnalyses analyses seconds
    outcome.totalIssues = outcome.critical + outcome.warning + outcome.info := by
  simp only [ofAnalyses]
  induction analyses with
  | nil => rfl
  | cons analysis rest ih =>
    have hfirst := (h analysis List.mem_cons_self).length_issues
    have hrest := ih fun other hother => h other (List.mem_cons_of_mem analysis hother)
    simp only [List.map_cons, sumOf_cons]
    omega

/-- The counts and the names of the means do not depend on the order of the files. -/
theorem ofAnalyses_perm {analyses other : List FileAnalysis} (h : analyses.Perm other)
    (seconds otherSeconds : Float) :
    (ofAnalyses analyses seconds).CountsAlike (ofAnalyses other otherSeconds) := by
  have hfiles : (analyses.map FileAnalysis.outcome).Perm (other.map FileAnalysis.outcome) :=
    h.map FileAnalysis.outcome
  constructor
  case totalFiles_eq => exact hfiles.length_eq
  case means_keys =>
    have hsorted (analyses : List FileAnalysis) (seconds : Float) :
        (ofAnalyses analyses seconds).metricMeans.IsSorted := by
      rw [Table.IsSorted, (keeps_ofAnalyses analyses seconds).means_keys]
      exact (keeps_ofAnalyses analyses seconds).metrics_sorted
    apply (hsorted analyses seconds).keys_eq (hsorted other otherSeconds)
    intro name
    simp only [mem_keys_metricMeans, h.mem_iff]
  all_goals exact sumOf_perm _ hfiles

/-- The outcome of a project follows its files: it is made of the outcomes of its parts, keeps the
last outcome of each metric with a mean for every one, and counts every issue of files that have
been built up once, in whatever order the files stand. -/
theorem ofAnalyses_homomorphism :
    (∀ (first second : List FileAnalysis) (seconds firstSeconds secondSeconds : Float),
      (ofAnalyses (first ++ second) seconds).Joins (ofAnalyses first firstSeconds)
        (ofAnalyses second secondSeconds)) ∧
    (∀ (analyses : List FileAnalysis) (seconds : Float),
      (ofAnalyses analyses seconds).Keeps (analyses.flatMap FileAnalysis.metrics)) ∧
    (∀ (analyses : List FileAnalysis) (seconds : Float),
      (∀ analysis ∈ analyses, analysis.outcome.Built) →
        (ofAnalyses analyses seconds).totalIssues =
          (ofAnalyses analyses seconds).critical + (ofAnalyses analyses seconds).warning +
            (ofAnalyses analyses seconds).info) ∧
    ∀ (analyses other : List FileAnalysis) (seconds otherSeconds : Float), analyses.Perm other →
      (ofAnalyses analyses seconds).CountsAlike (ofAnalyses other otherSeconds) := by
  refine ⟨ofAnalyses_append, keeps_ofAnalyses, ?_, ?_⟩
  · intro analyses seconds hbuilt
    exact totalIssues_ofAnalyses (fun analysis h => (hbuilt analysis h).tallied) seconds
  · intro analyses other seconds otherSeconds hperm
    exact ofAnalyses_perm hperm seconds otherSeconds

/-- Two files with an issue each, of which both have one metric and the second has another. -/
theorem ofAnalyses_homomorphism_two :
    let first : FileAnalysis :=
      { outcome := (FileOutcome.ofInventory { path := "a.go", language := .go }).addIssue
          ⟨"naming", .critical, "x is short"⟩
        metrics := [⟨"naming", 0.9, "", 1, ["x is short"]⟩] }
    let second : FileAnalysis :=
      { outcome := ((FileOutcome.ofInventory { path := "b.go", language := .go }).addIssue
          ⟨"length", .info, "f is long"⟩).setScore 0.25
        metrics := [⟨"naming", 0, "", 1, []⟩, ⟨"length", 0.25, "", 1, ["f is long"]⟩] }
    let outcome := ofAnalyses [first, second] 0
    (outcome.totalIssues, outcome.critical, outcome.warning, outcome.info) = (2, 1, 0, 1) ∧
      outcome.totalIssues = outcome.critical + outcome.warning + outcome.info ∧
      (outcome.metrics.get? "naming").map MetricOutcome.issues = some [] ∧
      outcome.metricMeans.keys = ["length", "naming"] ∧
      (ofAnalyses [second, first] 1).CountsAlike outcome := by
  intro first second outcome
  have hbuilt : ∀ analysis ∈ [first, second], analysis.outcome.Built := by
    intro analysis hanalysis
    rcases List.mem_pair.mp hanalysis with rfl | rfl
    · dsimp only [first]
      exact .addIssue (.ofInventory _) _
    · dsimp only [second]
      exact .setScore (.addIssue (.ofInventory _) _) _
  refine ⟨by decide, ofAnalyses_homomorphism.2.2.1 [first, second] 0 hbuilt, by decide, by decide,
    ofAnalyses_homomorphism.2.2.2 [second, first] [first, second] 1 0 (.swap _ _ _)⟩

end ProjectOutcome

end CodeQuality
