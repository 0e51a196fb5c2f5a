import CodeQuality.Access
import CodeQuality.Language
import CodeQuality.LineCount
import CodeQuality.Signature.Heritage
import CodeQuality.Signature.Types

/-!
# Records

What the extraction finds in a file: its functions, classes and variables with the lines they
stand on, and the counts of its lines.
-/

namespace CodeQuality

/-- A function with its body and signature. -/
structure FunctionRecord where
  name : String
  /-- The text from the signature to the end of the body, empty when there is no body. -/
  body : String := ""
  startLine : Nat := 1
  endLine : Nat := 1
  parameters : List String := []
  returnType : String := ""
  access : Access := .unspecified
  deriving DecidableEq, Repr

namespace FunctionRecord

/-- How many lines the last line stands below the first. -/
def lineSpan (record : FunctionRecord) : Nat :=
  record.endLine - record.startLine

end FunctionRecord

/-- A class with its body and parents. -/
structure ClassRecord where
  name : String
  /-- The text from the declaration to the end of the body, empty when there is no body. -/
  body : String := ""
  startLine : Nat := 1
  endLine : Nat := 1
  heritage : Heritage := {}
  access : Access := .unspecified
  deriving DecidableEq, Repr

namespace ClassRecord

/-- How many lines the last line stands below the first. -/
def lineSpan (record : ClassRecord) : Nat :=
  record.endLine - record.startLine

end ClassRecord

/-- A variable at its declaration. -/
structure VariableRecord where
  name : String
  type : TypeAnnotation := .unknown
  line : Nat := 1
  access : Access := .unspecified
  isConst : Bool := false
  isStatic : Bool := false
  deriving DecidableEq, Repr

/-- The structural inventory of one file. -/
structure Inventory where
  path : Path
  language : Language
  content : String := ""
  lines : LineCount := {}
  functions : List FunctionRecord := []
  classes : List ClassRecord := []
  vars : List VariableRecord := []

end CodeQuality
