import CodeQuality.Rules.Basic

/-!
# Rules for C, C++, C# and Java

The languages in which a type comes before the name that it is declared for.
-/

namespace CodeQuality.Rules

/-!
## Rules for C and C++

The two languages share the shapes of functions and variables. C++ adds classes and exceptions.
-/

open Pattern

/-- A template head, perhaps. -/
def maybeTemplate : Pattern :=
  opt (inOrder [word "template", gap, angles, gap])

/-- Blanks, stars and ampersands between a type and a name, at least one of them. -/
def typeNameGap : Pattern :=
  runOf (anyOf [' ', '\t', '*', '&'])

/-- A function with a return type and a name that may be qualified. -/
def cFunction : Pattern :=
  inOrder [lineStart, gap, maybeTemplate, maybeStatic,
    manyWords ["inline", "extern", "virtual", "constexpr", "const", "unsigned", "signed",
      "explicit", "friend"],
    group .returnType (seq (one isNameStart) (run (wordOr [':', '<', '>', ',']))),
    typeNameGap,
    group .name (inOrder [identifier, many (inOrder [word "::", opt (word "~"), identifier])]),
    gap, word "("]

/-- A variable with a type, perhaps an array. -/
def cVariable : Pattern :=
  inOrder [lineStart, gap, maybeStatic,
    maybeThenGap (group .constWord (oneOf ["const", "constexpr"])),
    manyWords ["unsigned", "signed", "volatile", "extern", "inline", "mutable"],
    group .declaredType (seq (one isNameStart) (run (wordOr [':', '<', '>']))),
    typeNameGap, group .name identifier, gap, opt (seq brackets gap),
    alt (seq (word "=") (one (noneOf ['=']))) (word ";")]

/-- A structure of C. -/
def cStruct : Pattern :=
  inOrder [lineStart, gap, maybeThenGap (word "typedef"), word "struct", someGap,
    group .name identifier, gap, literal ['{']]

/-- A class or structure of C++ with its heritage. -/
def cppClass : Pattern :=
  inOrder [lineStart, gap, maybeTemplate, oneOf ["class", "struct"], someGap,
    group .name identifier, opt (seq someGap (word "final")),
    group .heritage (run (noneOf ['{', ';'])), literal ['{']]

/-- The rules for C. -/
def c : Rules where
  comments := .slashes
  body := .braces
  access := .linkage
  heritage := .absent
  returns := .leading
  parameterOrder := .typeFirst
  dynamicTyping := false
  constantByCase := false
  functionPatterns := [cFunction]
  classPatterns := [cStruct]
  variablePatterns := [cVariable]
  complexityPatterns := braceComplexity
  errorPatterns :=
    [comparesWith ["NULL"], wordParen "assert", wholeWord "errno",
     inOrder [wordEdge, word "if", space, word "(", space, word "!", space,
       runOf Text.isWord, space, word ")"],
     inOrder [wordEdge, word "return", someSpace, word "-1", space, word ";"]]
  naming :=
    { functionCasings := [.lowerMixed]
      classCasings := [.pascal, .snake]
      variableCasings := [.lowerMixed]
      constantCasings := [.screamingSnake, .lowerMixed] }
  implicitParameters := ["void"]

/-- The rules for C++. -/
def cpp : Rules :=
  { c with
    heritage := .colon
    classPatterns := [cppClass]
    errorPatterns :=
      exceptionMarkers ++ [comparesWith ["nullptr", "NULL"], wordParen "assert"] }

/-! ## Rules for C# -/

/-- The access keywords. -/
def csharpAccess : List String :=
  ["public", "private", "protected", "internal"]

/-- A method with a return type, behind attributes and modifiers. -/
def csharpMethod : Pattern :=
  inOrder [lineStart, gap, many (seq brackets gap),
    maybeAccess csharpAccess,
    maybeThenGap (oneOf ["protected", "internal", "private"]),
    maybeStatic,
    manyWords ["virtual", "override", "abstract", "async", "sealed", "extern", "unsafe", "new",
      "partial", "readonly"],
    group .returnType typeWithArguments, someGap,
    group .name identifier, gap, opt angles, gap, word "("]

/-- A constructor, which has an access keyword and no return type. -/
def csharpConstructor : Pattern :=
  inOrder [lineStart, gap, group .access (oneOf csharpAccess), someGap, maybeStatic,
    group .name (seq (one Char.isUpper) (run Text.isWord)), gap, word "("]

/-- A class, structure or record with its heritage. -/
def csharpClass : Pattern :=
  inOrder [wordEdge, maybeAccess csharpAccess, maybeStatic,
    manyWords ["abstract", "sealed", "partial", "readonly", "unsafe", "new"],
    oneOf ["class", "struct", "record"], someGap,
    group .name identifier, opt angles, group .heritage (run (noneOf ['{', ';']))]

/-- A field or local variable with a type. -/
def csharpVariable : Pattern :=
  inOrder [lineStart, gap, maybeAccess csharpAccess, maybeStatic,
    maybeThenGap (group .constWord (oneOf ["const", "readonly"])),
    manyWords ["volatile", "new"],
    group .declaredType typeName, someGap, group .name identifier, gap,
    alt (seq (word "=") (one (noneOf ['=', '>']))) (word ";")]

/-- The rules for C#. -/
def csharp : Rules where
  comments := .slashes
  body := .braces
  access := .keyword
  heritage := .colon
  returns := .leading
  parameterOrder := .typeFirst
  dynamicTyping := false
  constantByCase := false
  functionPatterns := [csharpMethod, csharpConstructor]
  classPatterns := [csharpClass]
  variablePatterns := [csharpVariable]
  complexityPatterns := braceComplexity
  errorPatterns := exceptionMarkers ++ [comparesWith ["null"], word "??", isOrIsNot "null"]
  naming :=
    { functionCasings := [.pascal]
      classCasings := [.pascal]
      variableCasings := [.camel]
      constantCasings := [.pascal, .screamingSnake] }
  implicitParameters := []

/-! ## Rules for Java -/

/-- The access keywords. -/
def javaAccess : List String :=
  ["public", "private", "protected"]

/-- An annotation, perhaps with arguments on the same line. -/
def javaAnnotation : Pattern :=
  inOrder [word "@", runOf Text.isWord, opt (enclosed '(' (noneOf [')', '\n']) ')'), someGap]

/-- A method with a return type, behind annotations and modifiers. -/
def javaMethod : Pattern :=
  inOrder [lineStart, gap, many javaAnnotation, maybeAccess javaAccess, maybeStatic,
    manyWords ["final", "abstract", "synchronized", "native", "default", "strictfp"],
    maybeThenGap angles,
    group .returnType typeWithArguments, someGap, group .name identifier, gap, word "("]

/-- A constructor, which has an access keyword and no return type. -/
def javaConstructor : Pattern :=
  inOrder [lineStart, gap, group .access (oneOf javaAccess), someGap,
    group .name (seq (one Char.isUpper) (run Text.isWord)), gap, word "("]

/-- A class or record with its heritage. -/
def javaClass : Pattern :=
  inOrder [wordEdge, maybeAccess javaAccess, maybeStatic,
    manyWords ["abstract", "final", "sealed", "strictfp"],
    oneOf ["class", "record"], someGap,
    group .name identifier, opt angles, group .heritage (run (noneOf ['{', ';']))]

/-- A field or local variable with a type. -/
def javaVariable : Pattern :=
  inOrder [lineStart, gap, maybeAccess javaAccess, maybeStatic,
    maybeThenGap (group .constWord (word "final")),
    manyWords ["volatile", "transient"],
    group .declaredType typeName, someGap, group .name identifier, gap,
    alt (seq (word "=") (one (noneOf ['=']))) (word ";")]

/-- The rules for Java. -/
def java : Rules where
  comments := .slashes
  body := .braces
  access := .keyword
  heritage := .extendsImplements
  returns := .leading
  parameterOrder := .typeFirst
  dynamicTyping := false
  constantByCase := false
  functionPatterns := [javaMethod, javaConstructor]
  classPatterns := [javaClass]
  variablePatterns := [javaVariable]
  complexityPatterns := braceComplexity
  errorPatterns :=
    exceptionMarkers ++
      [comparesWith ["null"], wholeWord "Objects.requireNonNull", wholeWord "Optional"]
  naming :=
    { functionCasings := [.pascal]
      classCasings := [.pascal]
      variableCasings := [.camel]
      constantCasings := [.camel, .screamingSnake] }
  implicitParameters := []

end CodeQuality.Rules
