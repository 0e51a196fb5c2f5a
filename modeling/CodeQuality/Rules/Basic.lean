import CodeQuality.Access
import CodeQuality.Casing
import CodeQuality.Pattern.Build
import CodeQuality.Scan.Code
import CodeQuality.Signature.Heritage
import CodeQuality.Signature.Parameter
import CodeQuality.Signature.Types

/-!
# Language rules

All that the extraction and the metrics need to know about a language, as data. Signature patterns
label the stretches that records are made from. The pattern of a function ends at the parenthesis
that opens its parameters, or behind them where only the body tells a declaration from a call.
-/

namespace CodeQuality

/-- How the extent of a body is found. -/
inductive BodyStyle where
  | braces
  | indentation
  deriving DecidableEq, Repr

/-- The rules of one language. -/
structure Rules where
  comments : CommentStyle
  body : BodyStyle
  access : AccessConvention
  heritage : HeritageStyle
  returns : ReturnStyle
  parameterOrder : ParameterOrder
  /-- A declaration without a type leaves the type unknown. -/
  dynamicTyping : Bool
  /-- A name in capitals makes a constant. -/
  constantByCase : Bool
  functionPatterns : List Pattern
  classPatterns : List Pattern
  variablePatterns : List Pattern
  /-- Each match adds a path through a function. -/
  complexityPatterns : List Pattern
  /-- A match anywhere in a function shows that it deals with errors. -/
  errorPatterns : List Pattern
  naming : NamingRules
  /-- Parameters that are not counted. -/
  implicitParameters : List String

namespace Rules

open Pattern

/-- An access keyword and a gap, perhaps. -/
def maybeAccess (keywords : List String) : Pattern :=
  maybeThenGap (group .access (oneOf keywords))

/-- The word `static` and a gap, perhaps. -/
def maybeStatic : Pattern :=
  maybeThenGap (group .staticWord (word "static"))

/-- The characters of a type that may hold generic arguments, arrays and members. -/
def isTypeChar (c : Char) : Bool :=
  wordOr ['<', '>', '[', ']', '.', '?'] c

/-- A type name, possibly with type arguments behind commas. -/
def typeName : Pattern :=
  seq (one isNameStart) (run isTypeChar)

/-- A type name with more type arguments behind commas. -/
def typeWithArguments : Pattern :=
  inOrder [one isNameStart, run isTypeChar, many (inOrder [word ",", gap, runOf isTypeChar])]

/-- A word and an opening parenthesis. -/
def wordParen (text : String) : Pattern :=
  inOrder [wordEdge, word text, space, word "("]

/-- A word and a colon. -/
def wordColon (text : String) : Pattern :=
  inOrder [wordEdge, word text, space, word ":"]

/-- A word and white space. -/
def wordSpace (text : String) : Pattern :=
  inOrder [wordEdge, word text, someSpace]

/-- A word on its own. -/
def wholeWord (text : String) : Pattern :=
  inOrder [wordEdge, word text, wordEdge]

/-- A comparison with one of the words, equal or not. -/
def comparesWith (options : List String) : Pattern :=
  inOrder [one (anyOf ['!', '=']), word "=", space, oneOf options, wordEdge]

/-- A test with `is` or `is not` for the word. -/
def isOrIsNot (text : String) : Pattern :=
  inOrder [wordEdge, word "is", someSpace, opt (seq (word "not") someSpace), word text, wordEdge]

/-- A question mark between blanks and a colon on the same statement. -/
def conditional : Pattern :=
  inOrder [one Text.isBlank, word "?", one Text.isBlank, fewest (noneOf ['\n', ';']), word ":"]

/-- An `else` and the `if` behind it. -/
def elseIfParen : Pattern :=
  inOrder [wordEdge, word "else", someSpace, word "if", space, word "("]

/-- The decision points of languages with braces and a `foreach`. An `else if` is also an `if`,
so it adds two paths. -/
def braceComplexity : List Pattern :=
  [wordParen "if", elseIfParen, wordParen "while", wordParen "for", wordParen "foreach",
   wordParen "switch", wordSpace "case", wordColon "default", wordParen "catch", word "&&",
   word "||", conditional]

/-- The words of exception handling. -/
def exceptionMarkers : List Pattern :=
  [wholeWord "try", wholeWord "catch", wholeWord "finally", wholeWord "throw"]

end Rules

end CodeQuality
