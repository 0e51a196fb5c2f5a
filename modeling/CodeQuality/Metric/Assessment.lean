import CodeQuality.Config.Basic
import CodeQuality.Decimal
import CodeQuality.Duplication.Block
import CodeQuality.Duplication.Similarity
import CodeQuality.Extraction.Record
import CodeQuality.Pattern.Search
import CodeQuality.Rules.Table
import CodeQuality.Score

/-!
# Assessments

What each metric makes of one file, before the score is brought into range and given a weight.
-/

namespace CodeQuality

/-- A score with the issues behind it. -/
structure Assessment where
  score : Float := 0
  issues : List String := []

namespace Assessment

/-- The assessment by the rules of the file's language, and a clean one where there are none. -/
def byRules (inventory : Inventory) (assess : Rules → Assessment) : Assessment :=
  match Rules.of? inventory.language with
  | some rules => assess rules
  | none => {}

/-- The greatest of the numbers with its name. Of equal ones the last counts. -/
def greatest? : List (String × Nat) → Option (String × Nat)
  | [] => none
  | first :: rest =>
    some (rest.foldl (fun best next => if best.2 ≤ next.2 then next else best) first)

/-- The issue, where the condition holds. -/
def issueIf (condition : Bool) (message : String) : List String :=
  if condition then [message] else []

end Assessment

/-!
## Cyclomatic complexity

The complexity of a function is one more than the number of decision points in its body.
-/

/-- One more than the number of matches of the decision patterns in a body. -/
def functionComplexity (rules : Rules) (body : String) : Nat :=
  1 + sumOf (fun pattern => pattern.countIn body.toList) rules.complexityPatterns

namespace Metric

/-- The mean complexity against its saturation, with the functions that are too complex. -/
def complexity (thresholds : ComplexityThresholds) (inventory : Inventory) : Assessment :=
  Assessment.byRules inventory fun rules =>
    let complexities := inventory.functions.map fun function =>
      (function.name, functionComplexity rules function.body)
    match mean? (complexities.map fun entry => Float.ofNat entry.2) with
    | none => {}
    | some average =>
      let extreme := match Assessment.greatest? complexities with
        | some (name, most) =>
          Assessment.issueIf (thresholds.extreme < most)
            ("Extremely high complexity: " ++ name ++ " (" ++ toString most ++ ")")
        | none => []
      let high := (complexities.filter fun entry => thresholds.high < entry.2).map Prod.fst
      { score := lesser (average / thresholds.saturation) 1
        issues := extreme ++ Assessment.issueIf (!high.isEmpty)
          (toString high.length ++ " high-complexity functions (>" ++ toString thresholds.high ++
            "): " ++ ", ".intercalate high) }

end Metric

/-!
## Function length

The length of a function is the number of its lines that are neither blank nor begin with a
comment mark.
-/

/-- The number of lines of a body that are neither blank nor begin with a comment mark. -/
def logicalLines (body : List Char) (style : CommentStyle) : Nat :=
  (((Text.lines body).map Text.trim).filter fun line =>
    !line.isEmpty && !style.marks line).length

namespace Metric

/-- The mean length against its saturation, with issues for functions that are too long. -/
def functionLength (thresholds : FunctionLengthThresholds) (inventory : Inventory) : Assessment :=
  Assessment.byRules inventory fun rules =>
    let lengths := inventory.functions.map fun function =>
      (function.name, logicalLines function.body.toList rules.comments)
    match mean? (lengths.map fun entry => Float.ofNat entry.2) with
    | none => {}
    | some average =>
      let extreme := match Assessment.greatest? lengths with
        | some (name, longest) =>
          Assessment.issueIf (thresholds.veryLong < longest)
            ("Extremely long function: " ++ name ++ " (" ++ toString longest ++ " lines)")
        | none => []
      let long := (lengths.filter fun entry => thresholds.long < entry.2).length
      { score := lesser (average / thresholds.saturation) 1
        issues := extreme ++
          Assessment.issueIf (0 < long)
            (toString long ++ " long functions (>" ++ toString thresholds.long ++ " lines)") ++
          Assessment.issueIf (thresholds.meanWarning < average)
            ("Average function length too high: " ++ Decimal.fixed 1 average ++ " lines") }

end Metric

/-!
## Comment ratio

The share of comments among the lines that are not blank. Both too few and too many comments count
against a file.
-/

/-- The score of a file with no comments. -/
def noCommentScore : Float := 0.8

namespace CommentRatioThresholds

/-- Twice the distance from the ideal inside the band, and linear outside of it. Below the band
the score falls from its value for no comments to its value at the lower end. -/
def scoreRatio (thresholds : CommentRatioThresholds) (ratio : Float) : Float :=
  if ratio < thresholds.low then
    let atLow := 2 * (thresholds.low - thresholds.ideal).abs
    noCommentScore - (noCommentScore - atLow) * ratio / thresholds.low
  else if thresholds.high < ratio then 2 * (ratio - thresholds.high)
  else 2 * (ratio - thresholds.ideal).abs

end CommentRatioThresholds

namespace Metric

/-- The score of the comment ratio of the file's text, with an issue outside of the band. -/
def commentRatio (thresholds : CommentRatioThresholds) (inventory : Inventory) : Assessment :=
  Assessment.byRules inventory fun rules =>
    let ratio := (LineCount.ofText inventory.content.toList rules.comments).commentRatio
    { score := thresholds.scoreRatio ratio
      issues :=
        if ratio < thresholds.low then ["Comment ratio too low: " ++ Decimal.percent ratio]
        else if thresholds.high < ratio then
          ["Comment ratio too high: " ++ Decimal.percent ratio]
        else [] }

end Metric

/-!
## Error handling

The share of functions whose bodies hold a sign of error handling.
-/

/-- Some error pattern of the language occurs in the body. -/
def handlesErrors (rules : Rules) (body : String) : Bool :=
  rules.errorPatterns.any fun pattern => pattern.occursIn body.toList

namespace Metric

/-- The share of functions without error handling, with an issue when too few have it. -/
def errorHandling (thresholds : ErrorHandlingThresholds) (inventory : Inventory) : Assessment :=
  Assessment.byRules inventory fun rules =>
    if inventory.functions.isEmpty then {}
    else
      let covered := inventory.functions.filter fun function => handlesErrors rules function.body
      let coverage := Float.ofNat covered.length / Float.ofNat inventory.functions.length
      { score := 1 - coverage
        issues := Assessment.issueIf (coverage < thresholds.minCoverage)
          ("Error handling coverage too low: " ++ Decimal.percent coverage) }

end Metric

/-!
## Naming convention

The share of names that do not have a shape their language accepts.
-/

/-- A name with its category and whether the convention accepts it. -/
structure NameCheck where
  category : String
  name : String
  accepted : Bool

namespace Metric

/-- The checks of all names of a file: functions, then classes, then variables. -/
def nameChecks (rules : NamingRules) (inventory : Inventory) : List NameCheck :=
  (inventory.functions.map fun function =>
    ⟨"function", function.name, rules.acceptsFunction function.name⟩) ++
  (inventory.classes.map fun record =>
    ⟨"class", record.name, rules.acceptsClass record.name⟩) ++
  (inventory.vars.map fun record =>
    ⟨"variable", record.name, rules.acceptsVariable record.name record.isConst⟩)

/-- The share of names that break the convention, each with an issue. -/
def naming (inventory : Inventory) : Assessment :=
  Assessment.byRules inventory fun rules =>
    let checks := nameChecks rules.naming inventory
    let issues := (checks.filter fun check => !check.accepted).map fun check =>
      "Non-conventional " ++ check.category ++ " name: " ++ check.name
    if checks.isEmpty then {}
    else
      { score := Float.ofNat issues.length / Float.ofNat checks.length
        issues := issues }

end Metric

/-!
## Code duplication

Pairs of similar functions and repeated blocks of lines within one file.
-/

/-- What repeated blocks add to the score. -/
def blockPenalty : Float := 0.3

namespace Metric

/-- The number of similar pairs against the number of functions, and more where blocks are
repeated. -/
def duplication (thresholds : DuplicationThresholds) (inventory : Inventory) : Assessment :=
  let pairs := similarPairs thresholds.similarity inventory.functions
  let blocks := duplicateBlocks inventory.content.toList thresholds.minBlockLines
    thresholds.maxBlockLines
  let byPairs :=
    if inventory.functions.isEmpty then 0
    else lesser (2 * Float.ofNat pairs.length / Float.ofNat inventory.functions.length) 1
  { score := if blocks.isEmpty then byPairs else lesser (byPairs + blockPenalty) 1
    issues :=
      (pairs.map fun pair =>
        "Similar functions: " ++ pair.first ++ " and " ++ pair.second ++ " (similarity: " ++
          Decimal.percent pair.similarity ++ ")") ++
      Assessment.issueIf (!blocks.isEmpty)
        ("Found " ++ toString blocks.length ++ " duplicate code blocks") }

end Metric

end CodeQuality
