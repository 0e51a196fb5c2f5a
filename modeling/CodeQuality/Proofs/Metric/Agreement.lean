import CodeQuality.Proofs.Analysis.Coherence
import CodeQuality.Proofs.Extraction.Agreement

/-!
# Metrics of languages that agree

Each metric reads a part of a file's inventory and a part of its language's rules. What it reads
is said here metric by metric. It follows that JavaScript and TypeScript judge every text alike,
and that C and C++ judge the complexity, the length and the duplication of its functions alike.
-/

namespace CodeQuality

/-- Where a language has rules, a file in it is judged by them. -/
theorem Assessment.byRules_eq {inventory : Inventory} {rules : Rules}
    (hrules : Rules.of? inventory.language = some rules) (assess : Rules → Assessment) :
    byRules inventory assess = assess rules := by
  rw [byRules, hrules]

namespace Metric

open Assessment

variable {inventory other : Inventory} {rules others : Rules}

/-- Complexity depends on the functions and on the decision points of the language. -/
theorem complexity_congr (thresholds : ComplexityThresholds)
    (hrules : Rules.of? inventory.language = some rules)
    (hothers : Rules.of? other.language = some others)
    (hpatterns : rules.complexityPatterns = others.complexityPatterns)
    (hfunctions : inventory.functions = other.functions) :
    complexity thresholds inventory = complexity thresholds other := by
  simp only [complexity, byRules_eq hrules, byRules_eq hothers, functionComplexity, hpatterns,
    hfunctions]

/-- Function length depends on the functions and on the comments of the language. -/
theorem functionLength_congr (thresholds : FunctionLengthThresholds)
    (hrules : Rules.of? inventory.language = some rules)
    (hothers : Rules.of? other.language = some others)
    (hcomments : rules.comments = others.comments)
    (hfunctions : inventory.functions = other.functions) :
    functionLength thresholds inventory = functionLength thresholds other := by
  simp only [functionLength, byRules_eq hrules, byRules_eq hothers, hcomments, hfunctions]

/-- The comment ratio depends on the text and on the comments of the language. -/
theorem commentRatio_congr (thresholds : CommentRatioThresholds)
    (hrules : Rules.of? inventory.language = some rules)
    (hothers : Rules.of? other.language = some others)
    (hcomments : rules.comments = others.comments)
    (hcontent : inventory.content = other.content) :
    commentRatio thresholds inventory = commentRatio thresholds other := by
  simp only [commentRatio, byRules_eq hrules, byRules_eq hothers, hcomments, hcontent]

/-- Error handling depends on the functions and on the signs of it in the language. -/
theorem errorHandling_congr (thresholds : ErrorHandlingThresholds)
    (hrules : Rules.of? inventory.language = some rules)
    (hothers : Rules.of? other.language = some others)
    (hpatterns : rules.errorPatterns = others.errorPatterns)
    (hfunctions : inventory.functions = other.functions) :
    errorHandling thresholds inventory = errorHandling thresholds other := by
  have hhandles : handlesErrors rules = handlesErrors others := by
    funext body
    rw [handlesErrors, handlesErrors, hpatterns]
  simp only [errorHandling, byRules_eq hrules, byRules_eq hothers, hhandles]
  rw [hfunctions]

/-- Naming depends on the names, on which variables are constants and on the convention of the
language. -/
theorem naming_congr (hrules : Rules.of? inventory.language = some rules)
    (hothers : Rules.of? other.language = some others)
    (hnaming : rules.naming = others.naming)
    (hfunctions : inventory.functions = other.functions)
    (hclasses : inventory.classes = other.classes)
    (hvars : inventory.vars.map (fun record => (record.name, record.isConst)) =
      other.vars.map fun record => (record.name, record.isConst)) :
    naming inventory = naming other := by
  have hchecks : nameChecks others.naming inventory = nameChecks others.naming other := by
    have hvarChecks := congrArg (List.map fun entry : String × Bool =>
      (⟨"variable", entry.1, others.naming.acceptsVariable entry.1 entry.2⟩ : NameCheck)) hvars
    simp only [List.map_map, Function.comp_def] at hvarChecks
    rw [nameChecks, nameChecks, hfunctions, hclasses, hvarChecks]
  simp only [naming, byRules_eq hrules, byRules_eq hothers, hnaming, hchecks]

/-- Duplication depends on the functions and on the text. -/
theorem duplication_congr (thresholds : DuplicationThresholds)
    (hfunctions : inventory.functions = other.functions)
    (hcontent : inventory.content = other.content) :
    duplication thresholds inventory = duplication thresholds other := by
  simp only [duplication, hfunctions, hcontent]

/-- The layout depends on the functions, the classes and the numbers of lines. -/
theorem layout_congr (thresholds : StructureThresholds)
    (hlines : inventory.lines = other.lines) (hfunctions : inventory.functions = other.functions)
    (hclasses : inventory.classes = other.classes) :
    layout thresholds inventory = layout thresholds other := by
  simp only [layout, fileFaults, hlines, hfunctions, hclasses]

end Metric

/-- Two inventories of one text that differ at most in variables whose type is left open. -/
structure Inventory.AgreesUpToTyping (inventory settled : Inventory) : Prop where
  lines_eq : settled.lines = inventory.lines
  functions_eq : settled.functions = inventory.functions
  classes_eq : settled.classes = inventory.classes
  /-- A type that one inventory leaves unknown is inferred in the other. -/
  vars_eq : settled.vars = inventory.vars.map VariableRecord.settled

/-- Two inventories of one text that differ at most in their classes. -/
structure Inventory.AgreesUpToClasses (inventory other : Inventory) : Prop where
  lines_eq : other.lines = inventory.lines
  functions_eq : other.functions = inventory.functions
  vars_eq : other.vars = inventory.vars

/-- The metric has the same outcome for both inventories under every configuration. -/
def MetricKind.JudgesAlike (kind : MetricKind) (inventory other : Inventory) : Prop :=
  ∀ (thresholds : Thresholds) (weight : Float),
    kind.outcome thresholds other weight = kind.outcome thresholds inventory weight

namespace Rules

/-- JavaScript and TypeScript find functions alike. -/
theorem script_agreeOnFunctions : (script true).AgreeOnFunctions (script false) :=
  ⟨rfl, rfl, rfl, rfl, rfl, rfl, rfl⟩

/-- JavaScript and TypeScript find classes alike. -/
theorem script_agreeOnClasses : (script true).AgreeOnClasses (script false) :=
  ⟨rfl, rfl, rfl, rfl, rfl⟩

/-- JavaScript and TypeScript find variables alike. -/
theorem script_agreeOnVariables : (script true).AgreeOnVariables (script false) :=
  ⟨rfl, rfl, rfl⟩

/-- C and C++ find functions alike. -/
theorem c_agreeOnFunctions : c.AgreeOnFunctions cpp :=
  ⟨rfl, rfl, rfl, rfl, rfl, rfl, rfl⟩

/-- C and C++ find variables alike. -/
theorem c_agreeOnVariables : c.AgreeOnVariables cpp :=
  ⟨rfl, rfl, rfl⟩

end Rules

section Twins

variable (options : ExtractionOptions) (path place : Path) (text : String)

/-- JavaScript and TypeScript find the same in every text, but for types left open. -/
theorem agreesUpToTyping_extract :
    (extract options path text .javascript).AgreesUpToTyping
      (extract options place text .typescript) where
  lines_eq := (lines_extract_congr rfl rfl _ _ _ _ Rules.script_agreeOnFunctions.comments).symm
  functions_eq := (functions_extract_congr rfl rfl _ _ _ _ Rules.script_agreeOnFunctions).symm
  classes_eq := (classes_extract_congr rfl rfl _ _ _ _ Rules.script_agreeOnClasses).symm
  vars_eq := vars_extract_settled rfl rfl _ _ _ _ Rules.script_agreeOnVariables rfl rfl

/-- C and C++ find the same in every text, but for classes. -/
theorem agreesUpToClasses_extract :
    (extract options path text .c).AgreesUpToClasses (extract options place text .cpp) where
  lines_eq := (lines_extract_congr rfl rfl _ _ _ _ Rules.c_agreeOnFunctions.comments).symm
  functions_eq := (functions_extract_congr rfl rfl _ _ _ _ Rules.c_agreeOnFunctions).symm
  vars_eq := (vars_extract_congr rfl rfl _ _ _ _ Rules.c_agreeOnVariables rfl).symm

end Twins

/-- Inventories of judged languages are judged alike where they are assessed alike. -/
theorem MetricKind.judgesAlike_of_assess {kind : MetricKind} {inventory other : Inventory}
    (hsupported : other.language.isSupported = inventory.language.isSupported)
    (h : ∀ thresholds, kind.assess thresholds other = kind.assess thresholds inventory) :
    kind.JudgesAlike inventory other := by
  intro thresholds weight
  simp only [outcome, supports_eq, hsupported, h]

section Twins

variable {options : ExtractionOptions} {path place : Path} {text : String}

/-- The text of an inventory is the one it was read from. -/
theorem content_extract (language : Language) :
    (extract options path text language).content = text := by
  rw [extract]
  split <;> rfl

/-- The rules for an inventory are those of the language it was read in. -/
theorem rules_extract (language : Language) :
    Rules.of? (extract options path text language).language = Rules.of? language := by
  rw [extract_language]

/-- Every metric judges JavaScript and TypeScript alike. -/
theorem judgesAlike_script (kind : MetricKind) :
    kind.JudgesAlike (extract options path text .javascript)
      (extract options place text .typescript) := by
  have hagree := agreesUpToTyping_extract options path place text
  have hcontent : (extract options place text .typescript).content =
      (extract options path text .javascript).content := by
    rw [content_extract, content_extract]
  have hjavascript : Rules.of? (extract options path text .javascript).language =
      some (Rules.script true) := rules_extract .javascript
  have htypescript : Rules.of? (extract options place text .typescript).language =
      some (Rules.script false) := rules_extract .typescript
  refine MetricKind.judgesAlike_of_assess (by rw [extract_language, extract_language]; rfl)
    fun thresholds => ?_
  cases kind with
  | cyclomaticComplexity =>
    exact Metric.complexity_congr _ htypescript hjavascript rfl hagree.functions_eq
  | functionLength =>
    exact Metric.functionLength_congr _ htypescript hjavascript rfl hagree.functions_eq
  | commentRatio => exact Metric.commentRatio_congr _ htypescript hjavascript rfl hcontent
  | errorHandling =>
    exact Metric.errorHandling_congr _ htypescript hjavascript rfl hagree.functions_eq
  | namingConvention =>
    refine Metric.naming_congr htypescript hjavascript rfl hagree.functions_eq hagree.classes_eq ?_
    rw [hagree.vars_eq, List.map_map]
    rfl
  | codeDuplication => exact Metric.duplication_congr _ hagree.functions_eq hcontent
  | structureAnalysis =>
    exact Metric.layout_congr _ hagree.lines_eq hagree.functions_eq hagree.classes_eq

/-- The metrics of function bodies judge C and C++ alike. -/
theorem judgesAlike_c :
    MetricKind.cyclomaticComplexity.JudgesAlike (extract options path text .c)
        (extract options place text .cpp) ∧
      MetricKind.functionLength.JudgesAlike (extract options path text .c)
        (extract options place text .cpp) ∧
      MetricKind.codeDuplication.JudgesAlike (extract options path text .c)
        (extract options place text .cpp) := by
  have hagree := agreesUpToClasses_extract options path place text
  have hcontent : (extract options place text .cpp).content =
      (extract options path text .c).content := by
    rw [content_extract, content_extract]
  have hc : Rules.of? (extract options path text .c).language = some Rules.c := rules_extract .c
  have hcpp : Rules.of? (extract options place text .cpp).language = some Rules.cpp :=
    rules_extract .cpp
  have hsupported : (extract options place text .cpp).language.isSupported =
      (extract options path text .c).language.isSupported := by
    rw [extract_language, extract_language]
    rfl
  refine ⟨?_, ?_, ?_⟩
  · exact MetricKind.judgesAlike_of_assess hsupported fun thresholds =>
      Metric.complexity_congr _ hcpp hc rfl hagree.functions_eq
  · exact MetricKind.judgesAlike_of_assess hsupported fun thresholds =>
      Metric.functionLength_congr _ hcpp hc rfl hagree.functions_eq
  · exact MetricKind.judgesAlike_of_assess hsupported fun thresholds =>
      Metric.duplication_congr _ hagree.functions_eq hcontent

/-- Inventories that every metric judges alike have the same outcomes. -/
theorem metricOutcomes_congr {inventory other : Inventory}
    (hsupported : other.language.isSupported = inventory.language.isSupported)
    (h : ∀ kind : MetricKind, kind.JudgesAlike inventory other) (thresholds : Thresholds)
    (weights : Weights) :
    metricOutcomes thresholds weights other = metricOutcomes thresholds weights inventory := by
  rw [metricOutcomes_eq, metricOutcomes_eq, hsupported]
  simp only [h _ thresholds]

end Twins

/-- Twin languages agree on every text. Read as JavaScript and as TypeScript, it has the same
lines, functions and classes, the same variables but for types left open, and the same outcomes of
all metrics. Read as C and as C++, it has the same lines, functions and variables, and the same
outcomes of the metrics that judge function bodies. -/
theorem twin_languages_agree (options : ExtractionOptions) (path place : Path) (text : String) :
    (let javascript := extract options path text .javascript
     let typescript := extract options place text .typescript
     javascript.AgreesUpToTyping typescript ∧
       (∀ kind : MetricKind, kind.JudgesAlike javascript typescript) ∧
       ∀ thresholds weights, metricOutcomes thresholds weights typescript =
         metricOutcomes thresholds weights javascript) ∧
    (let c := extract options path text .c
     let cpp := extract options place text .cpp
     c.AgreesUpToClasses cpp ∧ MetricKind.cyclomaticComplexity.JudgesAlike c cpp ∧
       MetricKind.functionLength.JudgesAlike c cpp ∧
       MetricKind.codeDuplication.JudgesAlike c cpp) := by
  refine ⟨⟨agreesUpToTyping_extract options path place text, judgesAlike_script, ?_⟩,
    agreesUpToClasses_extract options path place text, judgesAlike_c⟩
  refine metricOutcomes_congr ?_ judgesAlike_script
  rw [extract_language, extract_language]
  rfl

end CodeQuality
