import CodeQuality.Pattern.Build
import CodeQuality.Pattern.Search
import CodeQuality.Signature.Parameter
import CodeQuality.Text.Basic

/-!
# Class heritage

The parents that a class names behind its own name: base types and interfaces, told apart by the
keyword before them or by their spelling.
-/

namespace CodeQuality

/-- How a class lists its parents. -/
inductive HeritageStyle where
  /-- Behind a colon. -/
  | colon
  /-- Behind the words `extends` and `implements`. -/
  | extendsImplements
  /-- In parentheses. -/
  | parenthesized
  /-- Not at all. -/
  | absent
  deriving DecidableEq, Repr

/-- The parents of a class. -/
structure Heritage where
  bases : List String := []
  interfaces : List String := []
  deriving DecidableEq, Repr

namespace Signature

open Text Pattern

/-- A list of bases, perhaps with a list of interfaces behind it, up to the end of the text. -/
def extendsPattern : Pattern :=
  inOrder [wordEdge, Pattern.word "extends", someSpace,
    group .bases (fewest fun _ => true),
    opt (inOrder [wordEdge, Pattern.word "implements", someSpace,
      group .interfaces (run fun _ => true)]),
    textEnd]

/-- A list of interfaces up to the end of the text. -/
def implementsPattern : Pattern :=
  inOrder [wordEdge, Pattern.word "implements", someSpace,
    group .interfaces (run fun _ => true), textEnd]

/-- Words before the name of a parent that are not part of it. -/
def heritageQualifiers : List String :=
  ["public", "private", "protected", "virtual"]

/-- The words of a parent without its qualifiers, one space apart. -/
def parentName? (text : List Char) : Option String :=
  let kept := ((words text).map String.ofList).filter fun token =>
    !heritageQualifiers.contains token
  if kept.isEmpty then none else some (" ".intercalate kept)

/-- The name is spelled like an interface: a capital I and another ASCII capital. -/
def looksLikeInterface (name : String) : Bool :=
  match name.toList with
  | 'I' :: second :: _ => second.isUpper
  | _ => false

/-- The parents in a list. -/
def parents (text : List Char) : List String :=
  (splitTopLevel text).filterMap parentName?

/-- The parents in the part of a text that a group covers, none when it covers nothing. -/
def parentsIn (text : List Char) (found : Match) (label : Label) : List String :=
  match found.span? label with
  | some span => parents (slice text span.start span.stop)
  | none => []

/-- The part of a list before the word that begins its constraints. -/
def beforeConstraints (text : List Char) : List Char :=
  takeBytes (firstOf [[' ', 'w', 'h', 'e', 'r', 'e', ' ']] text) text

/-- The base types and interfaces in the text behind the name of a class. -/
def heritage (style : HeritageStyle) (text : List Char) : Heritage :=
  let text := trim text
  match style with
  | .colon =>
    match dropPrefix? [':'] text with
    | none => {}
    | some list =>
      let names := parents (beforeConstraints list)
      { bases := names.filter fun name => !looksLikeInterface name
        interfaces := names.filter looksLikeInterface }
  | .extendsImplements =>
    match extendsPattern.find? text with
    | some found =>
      { bases := parentsIn text found .bases
        interfaces := parentsIn text found .interfaces }
    | none =>
      match implementsPattern.find? text with
      | some found => { interfaces := parentsIn text found .interfaces }
      | none => {}
  | .parenthesized =>
    let inner := dropTrailing (· == ')') (dropLeading (· == '(') text)
    { bases := (parents inner).filter fun base => !base.toList.contains '=' }
  | .absent => {}

end Signature

end CodeQuality
