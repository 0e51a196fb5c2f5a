import CodeQuality.Path
import CodeQuality.Text.Basic

/-!
# Languages

The languages whose files are analysed, and how a file extension or a name given by the user
selects one of them.
-/

namespace CodeQuality

/-- A programming language, or the mark of a file whose language is not known. -/
inductive Language where
  | csharp
  | javascript
  | typescript
  | python
  | java
  | cpp
  | c
  | go
  | unsupported
  deriving DecidableEq, Repr

namespace Language

/-- The languages that have rules. -/
def supported : List Language :=
  [csharp, javascript, typescript, python, java, cpp, c, go]

/-- All values, the unsupported one last. -/
def all : List Language :=
  supported ++ [unsupported]

/-- The language has rules. -/
def isSupported (language : Language) : Bool :=
  language != unsupported

/-- The name under which configurations and reports write the language. -/
def key : Language → String
  | csharp => "csharp"
  | javascript => "javascript"
  | typescript => "typescript"
  | python => "python"
  | java => "java"
  | cpp => "cpp"
  | c => "c"
  | go => "go"
  | unsupported => "unsupported"

/-- The language written as `key`. -/
def ofKey? (text : String) : Option Language :=
  all.find? fun language => language.key == text

/-- The name shown to people. -/
def display : Language → String
  | csharp => "C#"
  | javascript => "JavaScript"
  | typescript => "TypeScript"
  | python => "Python"
  | java => "Java"
  | cpp => "C++"
  | c => "C"
  | go => "Go"
  | unsupported => "Unsupported"

/-- The file extensions of a language, in lower case. -/
def extensions : Language → List String
  | csharp => ["cs", "razor"]
  | javascript => ["js", "jsx", "mjs", "cjs"]
  | typescript => ["ts", "tsx", "mts", "cts"]
  | python => ["py", "pyi"]
  | java => ["java"]
  | cpp => ["cpp", "cc", "cxx", "hpp", "hh", "hxx"]
  | c => ["c", "h"]
  | go => ["go"]
  | unsupported => []

/-- The names by which a user may ask for a language, in lower case. -/
def aliases : Language → List String
  | csharp => ["csharp", "c#", "cs"]
  | javascript => ["javascript", "js"]
  | typescript => ["typescript", "ts"]
  | python => ["python", "py"]
  | java => ["java"]
  | cpp => ["cpp", "c++", "cplusplus", "cxx"]
  | c => ["c"]
  | go => ["go", "golang"]
  | unsupported => []

/-- The text with its ASCII capitals in lower case. -/
def lowerAscii (text : List Char) : String :=
  String.ofList (text.map Char.toLower)

/-- The language of a file extension, whatever the case of its ASCII letters. -/
def ofExtension (extension : String) : Language :=
  (supported.find? fun language =>
    language.extensions.contains (lowerAscii extension.toList)).getD unsupported

/-- The language of a file by the extension of its path. -/
def ofPath (path : Path) : Language :=
  match path.extension? with
  | none => unsupported
  | some extension => ofExtension extension

/-- The language that a user means by a name. -/
def ofName? (name : String) : Option Language :=
  supported.find? fun language =>
    language.aliases.contains (lowerAscii (Text.trim name.toList))

end Language

end CodeQuality
