import CodeQuality.Config.Basic
import CodeQuality.Toml.Reader
import CodeQuality.Value

/-!
# Reading a configuration

A configuration is read from the value of a document. Fields that are left out keep their
defaults and unknown fields are ignored, but a field that is there must have the right form.
-/

namespace CodeQuality

namespace Decode

/-- A field, or its default where it is left out. -/
def orElse {α : Type} (default : α) (decode : Value → Option α) : Option Value → Option α
  | none => some default
  | some value => decode value

/-- The weights. -/
def weights (dialect : Dialect) (value : Value) : Option Weights := do
  let default : Weights := {}
  let fields ← value.fields? dialect (MetricKind.all.map MetricKind.name)
  match fields with
  | [a, b, c, d, e, f, g] =>
    return {
      cyclomaticComplexity := ← orElse default.cyclomaticComplexity Value.number? a
      functionLength := ← orElse default.functionLength Value.number? b
      commentRatio := ← orElse default.commentRatio Value.number? c
      errorHandling := ← orElse default.errorHandling Value.number? d
      namingConvention := ← orElse default.namingConvention Value.number? e
      codeDuplication := ← orElse default.codeDuplication Value.number? f
      structureAnalysis := ← orElse default.structureAnalysis Value.number? g }
  | _ => none

/-- The limits on decision points. -/
def complexity (dialect : Dialect) (value : Value) : Option ComplexityThresholds := do
  let default : ComplexityThresholds := {}
  match ← value.fields? dialect ["high", "extreme", "saturation"] with
  | [a, b, c] =>
    return {
      high := ← orElse default.high Value.count? a
      extreme := ← orElse default.extreme Value.count? b
      saturation := ← orElse default.saturation Value.number? c }
  | _ => none

/-- The limits on the length of functions. -/
def functionLength (dialect : Dialect) (value : Value) : Option FunctionLengthThresholds := do
  let default : FunctionLengthThresholds := {}
  match ← value.fields? dialect ["long", "very_long", "mean_warning", "saturation"] with
  | [a, b, c, d] =>
    return {
      long := ← orElse default.long Value.count? a
      veryLong := ← orElse default.veryLong Value.count? b
      meanWarning := ← orElse default.meanWarning Value.number? c
      saturation := ← orElse default.saturation Value.number? d }
  | _ => none

/-- The band of comment ratios. -/
def commentRatio (dialect : Dialect) (value : Value) : Option CommentRatioThresholds := do
  let default : CommentRatioThresholds := {}
  match ← value.fields? dialect ["low", "high", "ideal"] with
  | [a, b, c] =>
    return {
      low := ← orElse default.low Value.number? a
      high := ← orElse default.high Value.number? b
      ideal := ← orElse default.ideal Value.number? c }
  | _ => none

/-- The least coverage of error handling. -/
def errorHandling (dialect : Dialect) (value : Value) : Option ErrorHandlingThresholds := do
  let default : ErrorHandlingThresholds := {}
  match ← value.fields? dialect ["min_coverage"] with
  | [a] => return { minCoverage := ← orElse default.minCoverage Value.number? a }
  | _ => none

/-- The limits on duplicates. -/
def duplication (dialect : Dialect) (value : Value) : Option DuplicationThresholds := do
  let default : DuplicationThresholds := {}
  match ← value.fields? dialect ["similarity", "min_block_lines", "max_block_lines"] with
  | [a, b, c] =>
    return {
      similarity := ← orElse default.similarity Value.number? a
      minBlockLines := ← orElse default.minBlockLines Value.count? b
      maxBlockLines := ← orElse default.maxBlockLines Value.count? c }
  | _ => none

/-- The limits on sizes and signatures. -/
def layout (dialect : Dialect) (value : Value) : Option StructureThresholds := do
  let default : StructureThresholds := {}
  match ← value.fields? dialect ["max_class_lines", "max_function_lines", "max_parameters",
    "max_file_lines", "max_classes", "max_functions", "min_comment_ratio", "min_blank_ratio"] with
  | [a, b, c, d, e, f, g, h] =>
    return {
      maxClassLines := ← orElse default.maxClassLines Value.count? a
      maxFunctionLines := ← orElse default.maxFunctionLines Value.count? b
      maxParameters := ← orElse default.maxParameters Value.count? c
      maxFileLines := ← orElse default.maxFileLines Value.count? d
      maxClasses := ← orElse default.maxClasses Value.count? e
      maxFunctions := ← orElse default.maxFunctions Value.count? f
      minCommentRatio := ← orElse default.minCommentRatio Value.number? g
      minBlankRatio := ← orElse default.minBlankRatio Value.number? h }
  | _ => none

/-- The limits of all metrics. -/
def thresholds (dialect : Dialect) (value : Value) : Option Thresholds := do
  match ← value.fields? dialect ["complexity", "function_length", "comment_ratio", "error_handling",
    "duplication", "structure"] with
  | [a, b, c, d, e, f] =>
    return {
      complexity := ← orElse {} (complexity dialect) a
      functionLength := ← orElse {} (functionLength dialect) b
      commentRatio := ← orElse {} (commentRatio dialect) c
      errorHandling := ← orElse {} (errorHandling dialect) d
      duplication := ← orElse {} (duplication dialect) e
      layout := ← orElse {} (layout dialect) f }
  | _ => none

/-- The options of the extraction. -/
def extraction (dialect : Dialect) (value : Value) : Option ExtractionOptions := do
  let default : ExtractionOptions := {}
  match ← value.fields? dialect ["deduplicate"] with
  | [a] => return { deduplicate := ← orElse default.deduplicate Value.bool? a }
  | _ => none

/-- A list of which every item is decoded. -/
def listOf {α : Type} (decode : Value → Option α) (value : Value) : Option (List α) := do
  (← value.list?).mapM decode

/-- A language by its key. -/
def language (dialect : Dialect) (value : Value) : Option Language := do
  Language.ofKey? (← value.name? dialect)

/-- The languages to analyse; null stands for all of them. -/
def languages (dialect : Dialect) : Value → Option (Option (List Language))
  | .null => some none
  | value => (listOf (language dialect) value).map some

/-- An exclude pattern. -/
def pattern (value : Value) : Option ExcludePattern :=
  value.text?.map ExcludePattern.ofText

end Decode

namespace Config

/-- The configuration of a document's value. -/
def ofValue? (dialect : Dialect) (value : Value) : Option Config := do
  let default : Config := {}
  match ← value.fields? dialect ["exclude_patterns", "languages", "weights", "thresholds",
    "extraction", "parallel", "jobs"] with
  | [a, b, c, d, e, f, g] =>
    return {
      excludePatterns := ← Decode.orElse default.excludePatterns (Decode.listOf Decode.pattern) a
      languages := ← Decode.orElse none (Decode.languages dialect) b
      weights := ← Decode.orElse {} (Decode.weights dialect) c
      thresholds := ← Decode.orElse {} (Decode.thresholds dialect) d
      extraction := ← Decode.orElse {} (Decode.extraction dialect) e
      parallel := ← Decode.orElse default.parallel Value.bool? f
      jobs := ← Decode.orElse default.jobs Value.count? g }
  | _ => none

/-- The configuration of a TOML document. -/
def ofToml? (text : String) : Option Config := do
  ofValue? .toml (← Toml.read? text)

end Config

end CodeQuality
