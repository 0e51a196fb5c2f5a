import CodeQuality.Config.Basic
import CodeQuality.Decimal

/-!
# Validation of a configuration

A configuration is valid when its weights and ratios lie between zero and one, the weights add up
to one, and its ranges are not empty. An invalid one is reported by its first fault and can still
be used.
-/

namespace CodeQuality

/-- What is wrong with a configuration. -/
inductive ConfigFault where
  | weightRange (kind : MetricKind) (weight : Float)
  | weightSum (sum : Float)
  | ratioRange (name : String) (value : Float)
  | commentBand
  | saturation
  | blockRange (min max : Nat)

/-- The fault in words. -/
def ConfigFault.message : ConfigFault → String
  | .weightRange kind weight =>
    kind.name ++ " weight must be between 0.0 and 1.0, got " ++ Decimal.plain weight
  | .weightSum sum =>
    "Metric weights must sum to 1.0, but sum to " ++ Decimal.fixed 3 sum
  | .ratioRange name value =>
    name ++ " must be between 0.0 and 1.0, got " ++ Decimal.plain value
  | .commentBand => "comment_ratio.low must not exceed comment_ratio.high"
  | .saturation => "saturation values must be positive"
  | .blockRange min max =>
    "duplication block range " ++ toString min ++ "..=" ++ toString max ++ " is empty"

/-- The value is a number from zero to one. -/
def inUnit (value : Float) : Bool :=
  0 ≤ value && value ≤ 1

/-- How far the sum of the weights may lie from one. -/
def weightSumTolerance : Float := 0.01

/-- Every weight lies between zero and one and the sum is near one. -/
def Weights.validate (weights : Weights) : Except ConfigFault Unit :=
  match MetricKind.all.find? fun kind => !inUnit (weights.of kind) with
  | some kind => .error (.weightRange kind (weights.of kind))
  | none =>
    if weightSumTolerance < (weights.sum - 1).abs then .error (.weightSum weights.sum)
    else .ok ()

namespace Thresholds

/-- The thresholds that are ratios, with their names. -/
def ratios (thresholds : Thresholds) : List (String × Float) :=
  [("comment_ratio.low", thresholds.commentRatio.low),
   ("comment_ratio.high", thresholds.commentRatio.high),
   ("comment_ratio.ideal", thresholds.commentRatio.ideal),
   ("error_handling.min_coverage", thresholds.errorHandling.minCoverage),
   ("duplication.similarity", thresholds.duplication.similarity),
   ("structure.min_comment_ratio", thresholds.layout.minCommentRatio),
   ("structure.min_blank_ratio", thresholds.layout.minBlankRatio)]

/-- Every ratio lies between zero and one and no range is empty. -/
def validate (thresholds : Thresholds) : Except ConfigFault Unit :=
  match thresholds.ratios.find? fun ratio => !inUnit ratio.2 with
  | some (name, value) => .error (.ratioRange name value)
  | none =>
    if thresholds.commentRatio.high < thresholds.commentRatio.low then .error .commentBand
    else if thresholds.complexity.saturation ≤ 0 || thresholds.functionLength.saturation ≤ 0 then
      .error .saturation
    else if thresholds.duplication.minBlockLines = 0
        || thresholds.duplication.maxBlockLines < thresholds.duplication.minBlockLines then
      .error (.blockRange thresholds.duplication.minBlockLines
        thresholds.duplication.maxBlockLines)
    else .ok ()

end Thresholds

/-- The first fault of the weights, or else of the thresholds. -/
def Config.validate (config : Config) : Except ConfigFault Unit :=
  match config.weights.validate with
  | .error fault => .error fault
  | .ok () => config.thresholds.validate

end CodeQuality
