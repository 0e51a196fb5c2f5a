import CodeQuality.Text.Basic

/-!
# Types in signatures

The types that variables and functions are declared with. Reserved words are never taken for the
name of a type.
-/

namespace CodeQuality

/-!
## Reserved words

Words that signature patterns can pick up in the place of a name or a type but that never name a
function, a variable or a type.
-/

/-- The reserved words of all languages together. -/
def reservedWords : List String :=
  ["if", "else", "elif", "for", "foreach", "while", "do", "switch", "case", "default",
   "return", "new", "delete", "throw", "throws", "try", "catch", "finally", "except",
   "raise", "goto", "break", "continue", "await", "yield", "typeof", "sizeof",
   "instanceof", "in", "is", "as", "using", "import", "from", "package", "namespace",
   "define", "include", "with", "lambda", "func", "go", "defer", "select", "range",
   "not", "and", "or", "class", "struct", "interface", "enum", "record", "type",
   "operator", "template", "typedef", "extends", "implements", "async", "static",
   "public", "private", "protected", "internal", "export", "var", "let", "const",
   "where", "lock", "fixed", "checked", "unchecked", "assert", "pass", "del",
   "global", "nonlocal", "print", "echo", "when", "function", "def", "this", "super",
   "null", "true", "false", "None", "nil"]

/-- The word is reserved. -/
def isReserved (word : String) : Bool :=
  reservedWords.contains word

/-!
## Type annotations

The type that a variable declaration states, or the way in which it leaves the type open.
-/

/-- The type of a variable as its declaration gives it. -/
inductive TypeAnnotation where
  | declared (name : String)
  /-- The language works the type out. -/
  | inferred
  | unknown
  deriving DecidableEq, Repr

/-- The text shown for an annotation. -/
def TypeAnnotation.display : TypeAnnotation → String
  | .declared name => name
  | .inferred => "inferred"
  | .unknown => "unknown"

namespace Signature

open Text

/-- Words in the place of a type that leave it to inference. -/
def inferenceWords : List String :=
  ["var", "let", "auto", "val"]

/-- The annotation of a variable by the text in the place of its type. -/
def variableType (captured : Option (List Char)) (dynamic : Bool) : TypeAnnotation :=
  match (captured.map trim).filter (!·.isEmpty) with
  | some type =>
    let name := String.ofList type
    if inferenceWords.contains name then .inferred else .declared name
  | none => if dynamic then .unknown else .inferred

/-- The text in the place of a type is a keyword, so that nothing is declared there. -/
def isKeywordType (captured : Option (List Char)) : Bool :=
  captured.any fun type =>
    let name := String.ofList (trim type)
    !inferenceWords.contains name && isReserved name

end Signature

/-!
## Return types

The declared return type of a function, which a language writes before the name, or behind the
parameter list with a colon, with an arrow, or bare.
-/

/-- Where the return type of a function is written. -/
inductive ReturnStyle where
  /-- Before the name. -/
  | leading
  /-- Behind a colon that follows the parameters. -/
  | colon
  /-- Behind an arrow that follows the parameters. -/
  | arrow
  /-- Right behind the parameters. -/
  | bare
  deriving DecidableEq, Repr

namespace Signature

open Text

/-- The trimmed text before the first of the stops. -/
def textBefore (stops : List (List Char)) (text : List Char) : List Char :=
  trim (takeBytes (firstOf stops text) text)

/-- The declared return type, given the type written before the name and the text behind the
parameter list; empty when there is none. -/
def returnType (style : ReturnStyle) (leading : Option (List Char)) (behind : List Char) :
    List Char :=
  let after := behind.dropWhile fun c => c == ' ' || c == '\t'
  match style with
  | .leading =>
    match leading.map trim with
    | some type => if isReserved (String.ofList type) then [] else type
    | none => []
  | .colon =>
    match dropPrefix? [':'] after with
    | some rest => textBefore [['{'], ['=', '>'], [';'], ['\n']] rest
    | none => []
  | .arrow =>
    match dropPrefix? ['-', '>'] after with
    | some rest =>
      trim (dropTrailing (· == ':')
        (textBefore [[':', '\n'], [':', '\r'], [':', ' '], ['\n']] rest))
    | none => []
  | .bare => textBefore [['{'], ['\n']] after

end Signature

end CodeQuality
