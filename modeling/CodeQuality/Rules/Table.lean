import CodeQuality.Language
import CodeQuality.Rules.Basic
import CodeQuality.Rules.CFamily

/-!
# The rules of every language

The rules of JavaScript, TypeScript, Python and Go, in which a name comes before its type, and the
table of all rules.
-/

namespace CodeQuality

/-!
## Rules for JavaScript and TypeScript

The two languages share all rules but one: a declaration without a type leaves the type unknown
in JavaScript and inferred in TypeScript.
-/

namespace Rules

open Pattern

/-- The word `export` and a gap, perhaps. -/
def maybeExport : Pattern :=
  maybeAccess ["export"]

/-- A function declaration. -/
def scriptFunction : Pattern :=
  inOrder [wordEdge, maybeExport, maybeThenGap (word "default"), maybeThenGap (word "async"),
    word "function", wordEdge, gap, opt (word "*"), gap,
    group .name dollarIdentifier, gap, opt angles, gap, word "("]

/-- A function expression or arrow function bound to a name. -/
def scriptBinding : Pattern :=
  inOrder [wordEdge, maybeExport, oneOf ["const", "let", "var"], someGap,
    group .name dollarIdentifier,
    opt (inOrder [gap, word ":", runOf (noneOf ['=', '\n'])]),
    gap, word "=", gap, maybeThenGap (word "async"),
    choice [
      inOrder [word "function", wordEdge, gap, opt (word "*"), gap, opt dollarIdentifier, gap,
        word "("],
      inOrder [opt angles, enclosed '(' (noneOf [')']) ')',
        opt (inOrder [gap, word ":", gap, fewestOf (noneOf ['=', '\n', '{'])]), gap, word "=>"],
      inOrder [dollarIdentifier, gap, word "=>"]]]

/-- A function as the value of a property. -/
def scriptProperty : Pattern :=
  inOrder [lineStart, gap, group .name dollarIdentifier, gap, word ":", gap,
    maybeThenGap (word "async"), word "function", wordEdge]

/-- A method with its body's opening brace. -/
def scriptMethod : Pattern :=
  inOrder [lineStart, gap, maybeAccess ["public", "private", "protected"], maybeStatic,
    manyWords ["async", "readonly", "abstract", "override", "get", "set"],
    opt (word "*"),
    group .name (seq (one fun c => isNameStart c || c == '$' || c == '#') (run (wordOr ['$']))),
    gap, opt angles, gap, enclosed '(' (noneOf [')']) ')',
    opt (inOrder [gap, word ":", gap, fewestOf (noneOf ['{', ';', '\n'])]), gap, literal ['{']]

/-- A class with its heritage. -/
def scriptClass : Pattern :=
  inOrder [wordEdge, maybeExport, maybeThenGap (word "default"), maybeThenGap (word "abstract"),
    word "class", someGap, group .name dollarIdentifier, opt angles,
    group .heritage (run (noneOf ['{']))]

/-- A variable declaration, perhaps with a type. -/
def scriptVariable : Pattern :=
  inOrder [wordEdge, maybeExport,
    choice [word "var", word "let", group .constWord (word "const")], someGap,
    group .name dollarIdentifier,
    opt (inOrder [gap, word ":", gap,
      group .declaredType (fewestOf (noneOf ['=', ';', ',', '\n']))]),
    gap, choice [word "=", word ";", word ",", lineEnd]]

/-- The decision points. -/
def scriptComplexity : List Pattern :=
  [wordParen "if", elseIfParen, wordParen "while", wordParen "for", wordParen "switch",
   wordSpace "case", wordColon "default", wordParen "catch",
   inOrder [wordEdge, word "do", space, literal ['{']], word "&&", word "||", conditional]

/-- The rules shared by the two languages. -/
def script (dynamicTyping : Bool) : Rules where
  comments := .slashes
  body := .braces
  access := .keywordOrPublic
  heritage := .extendsImplements
  returns := .colon
  parameterOrder := .nameFirst
  dynamicTyping := dynamicTyping
  constantByCase := false
  functionPatterns := [scriptFunction, scriptBinding, scriptProperty, scriptMethod]
  classPatterns := [scriptClass]
  variablePatterns := [scriptVariable]
  complexityPatterns := scriptComplexity
  errorPatterns :=
    exceptionMarkers ++
      [inOrder [
        alt (seq (word "!=") (opt (word "="))) (seq (word "==") (opt (word "="))), space,
        oneOf ["null", "undefined"], wordEdge],
       word "?.", word "??", inOrder [word ".catch", space, word "("]]
  naming :=
    { functionCasings := [.camel]
      classCasings := [.pascal]
      variableCasings := [.camel]
      constantCasings := [.camel, .screamingSnake] }
  implicitParameters := []

/-! ## Rules for Python -/

/-- A function definition. -/
def pythonFunction : Pattern :=
  inOrder [lineStart, gap, maybeThenGap (word "async"), word "def", someGap,
    group .name identifier, gap, word "("]

/-- A class definition with its bases. -/
def pythonClass : Pattern :=
  inOrder [lineStart, gap, word "class", someGap, group .name identifier, gap,
    opt (group .heritage (enclosed '(' (noneOf [')']) ')')), gap, word ":"]

/-- An assignment to a name, perhaps with a type. -/
def pythonVariable : Pattern :=
  inOrder [lineStart, gap, group .name identifier, gap,
    opt (inOrder [word ":", gap, group .declaredType (fewestOf (noneOf ['=', '\n']))]),
    gap, word "=", one (noneOf ['='])]

/-- The rules for Python. -/
def python : Rules where
  comments := .hash
  body := .indentation
  access := .underscore
  heritage := .parenthesized
  returns := .arrow
  parameterOrder := .nameFirst
  dynamicTyping := true
  constantByCase := true
  functionPatterns := [pythonFunction]
  classPatterns := [pythonClass]
  variablePatterns := [pythonVariable]
  complexityPatterns :=
    [wholeWord "if", wholeWord "elif", wholeWord "while", wholeWord "for", wordColon "try",
     wholeWord "except", wordColon "else", wordColon "finally", wholeWord "and", wholeWord "or"]
  errorPatterns :=
    [wordColon "try", wholeWord "except", wordColon "finally", wholeWord "raise",
     isOrIsNot "None", comparesWith ["None"]]
  naming :=
    { functionCasings := [.snake]
      classCasings := [.pascal]
      variableCasings := [.snake]
      constantCasings := [.screamingSnake] }
  implicitParameters := ["self", "cls"]

/-! ## Rules for Go -/

/-- A function. -/
def goFunction : Pattern :=
  inOrder [lineStart, word "func", someGap, group .name identifier, gap, opt brackets, gap,
    word "("]

/-- A method with its receiver. -/
def goMethod : Pattern :=
  inOrder [lineStart, word "func", gap, enclosed '(' (noneOf [')', '\n']) ')', gap,
    group .name identifier, gap, opt brackets, gap, word "("]

/-- A structure or interface type. -/
def goType : Pattern :=
  inOrder [lineStart, gap, word "type", someGap, group .name identifier, opt brackets, someGap,
    oneOf ["struct", "interface"], wordEdge]

/-- The type and the end of a declaration, which is an equals sign or the end of the line. -/
def goDeclarationEnd : Pattern :=
  inOrder [group .name identifier,
    opt (seq someGap (group .declaredType (fewestOf (noneOf ['=', '\n'])))), gap,
    alt (word "=") lineEnd]

/-- A variable declaration. -/
def goVariable : Pattern :=
  inOrder [lineStart, gap, word "var", someGap, goDeclarationEnd]

/-- A constant declaration. -/
def goConstant : Pattern :=
  inOrder [lineStart, gap, group .constWord (word "const"), someGap, goDeclarationEnd]

/-- A short declaration of one or more names, of which the first counts. -/
def goShort : Pattern :=
  inOrder [lineStart, gap, group .name identifier,
    many (inOrder [gap, word ",", gap, identifier]), gap, word ":="]

/-- A comparison with `nil` by the given operator. -/
def nilCheck (operator : String) : Pattern :=
  inOrder [word operator, space, word "nil", wordEdge]

/-- The rules for Go. -/
def go : Rules where
  comments := .slashes
  body := .braces
  access := .capitalization
  heritage := .absent
  returns := .bare
  parameterOrder := .nameFirst
  dynamicTyping := false
  constantByCase := false
  functionPatterns := [goFunction, goMethod]
  classPatterns := [goType]
  variablePatterns := [goVariable, goConstant, goShort]
  complexityPatterns :=
    [wordSpace "if", inOrder [wordEdge, word "else", someSpace, word "if", someSpace],
     wholeWord "for", wholeWord "switch", wordSpace "case", wordColon "default",
     inOrder [wordEdge, word "select", space, literal ['{']], wordSpace "go", wordSpace "defer",
     word "&&", word "||"]
  errorPatterns :=
    [inOrder [wordEdge, word "err", space, nilCheck "!="], nilCheck "!=", nilCheck "==",
     wholeWord "defer", wordParen "panic", wordParen "recover"]
  naming :=
    { functionCasings := [.pascal, .camel]
      classCasings := [.pascal, .camel]
      variableCasings := [.pascal, .camel]
      constantCasings := [.pascal, .camel] }
  implicitParameters := []

end Rules

/-! ## The table -/

/-- The rules of a supported language. -/
def Rules.of? : Language → Option Rules
  | .csharp => some csharp
  | .javascript => some (script true)
  | .typescript => some (script false)
  | .python => some python
  | .java => some java
  | .cpp => some cpp
  | .c => some c
  | .go => some go
  | .unsupported => none

end CodeQuality
