import CodeQuality.Config.Basic
import CodeQuality.Decimal
import CodeQuality.Metric.Assessment

/-!
# Structure

The health of classes, functions and the file as a whole. Each starts at one and loses a share for
every fault. The score is what the mean of the three lacks.
-/

namespace CodeQuality

/-- What one check finds: how much health is lost, and the issue, if it is worth one. -/
structure Fault where
  loss : Float
  issue : Option String

/-- The health that is left behind the faults, at least zero. -/
def healthAfter (faults : List Fault) : Float :=
  greater (faults.foldl (fun health fault => health - fault.loss) 1) 0

/-- The issues of the faults. -/
def issuesOf (faults : List Fault) : List String :=
  faults.filterMap Fault.issue

/-- The fault, where the condition holds. -/
def faultIf (condition : Bool) (loss : Float) (issue : Option String) : List Fault :=
  if condition then [⟨loss, issue⟩] else []

/-- The declarations whose length has a limit. -/
inductive BodyKind where
  | classBody
  | functionBody
  deriving DecidableEq, Repr

namespace BodyKind

/-- The word that an issue begins with. -/
def word : BodyKind → String
  | classBody => "Class"
  | functionBody => "Function"

/-- The number of lines that is allowed. -/
def limit (limits : StructureThresholds) : BodyKind → Nat
  | classBody => limits.maxClassLines
  | functionBody => limits.maxFunctionLines

/-- The health that is lost when there are more lines. -/
def loss : BodyKind → Float
  | classBody => 0.3
  | functionBody => 0.4

end BodyKind

/-- The span of a class or function. -/
structure Extent where
  kind : BodyKind
  name : String
  span : Nat
  deriving DecidableEq, Repr

/-- The extent of a class. -/
def ClassRecord.extent (record : ClassRecord) : Extent :=
  ⟨.classBody, record.name, record.lineSpan⟩

/-- The extent of a function. -/
def FunctionRecord.extent (record : FunctionRecord) : Extent :=
  ⟨.functionBody, record.name, record.lineSpan⟩

namespace Metric

/-- The issue that something of a kind has too many lines. -/
def tooLong (kind name : String) (count : Nat) : String :=
  kind ++ " too long: " ++ name ++ " (" ++ toString count ++ " lines)"

/-- The issue that a class or function is too long. -/
def lengthIssue (extent : Extent) : String :=
  tooLong extent.kind.word extent.name extent.span

/-- The span is above the limit. -/
def exceeds (limits : StructureThresholds) (extent : Extent) : Bool :=
  extent.kind.limit limits < extent.span

/-- The faults of a class or function: those that both may have, and between them those that are
found in the one or the other. -/
def bodyFaults (limits : StructureThresholds) (extent : Extent) (access : Access)
    (others : List Fault) : List Fault :=
  faultIf (exceeds limits extent) extent.kind.loss (some (lengthIssue extent)) ++
  others ++
  faultIf (access == .unspecified) 0.2
    (some (extent.kind.word ++ " without access modifier: " ++ extent.name))

/-- The faults of a class. -/
def classFaults (limits : StructureThresholds) (record : ClassRecord) : List Fault :=
  bodyFaults limits record.extent record.access
    (faultIf (record.heritage.bases.isEmpty && record.heritage.interfaces.isEmpty) 0.1 none)

/-- The faults of a function. -/
def functionFaults (limits : StructureThresholds) (record : FunctionRecord) : List Fault :=
  bodyFaults limits record.extent record.access
    (faultIf (limits.maxParameters < record.parameters.length) 0.3
      (some ("Too many parameters: " ++ record.name ++ " (" ++
        toString record.parameters.length ++ " parameters)")) ++
    faultIf (record.returnType == "") 0.1 none)

/-- The share of lines of a kind, as a part of all lines. -/
def share (count total : Nat) : Float :=
  Float.ofNat count / Float.ofNat total

/-- The faults of a file. -/
def fileFaults (limits : StructureThresholds) (inventory : Inventory) : List Fault :=
  let lines := inventory.lines
  let comments := share lines.comment lines.total
  let blanks := share lines.blank lines.total
  faultIf (limits.maxFileLines < lines.total) 0.3
    (some ("File too long: " ++ toString lines.total ++ " lines")) ++
  faultIf (limits.maxClasses < inventory.classes.length) 0.2
    (some ("Too many classes in file: " ++ toString inventory.classes.length)) ++
  faultIf (limits.maxFunctions < inventory.functions.length) 0.2
    (some ("Too many functions in file: " ++ toString inventory.functions.length)) ++
  faultIf (0 < lines.total && comments < limits.minCommentRatio) 0.1
    (some ("Too few comments: " ++ Decimal.percent comments)) ++
  faultIf (0 < lines.total && blanks < limits.minBlankRatio) 0.1
    (some ("Too few blank lines: " ++ Decimal.percent blanks))

/-- The mean health of several things, one when there are none. -/
def meanHealth (faults : List (List Fault)) : Float :=
  (mean? (faults.map healthAfter)).getD 1

/-- What the mean health of classes, functions and the file lacks, with all issues. -/
def layout (limits : StructureThresholds) (inventory : Inventory) : Assessment :=
  let classes := inventory.classes.map (classFaults limits)
  let functions := inventory.functions.map (functionFaults limits)
  let file := fileFaults limits inventory
  let health := (meanHealth classes + meanHealth functions + healthAfter file) / 3
  { score := 1 - health
    issues := classes.flatMap issuesOf ++ functions.flatMap issuesOf ++ issuesOf file }

end Metric

end CodeQuality
