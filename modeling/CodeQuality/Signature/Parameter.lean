import CodeQuality.Text.Basic
import CodeQuality.Text.Word

/-!
# Parameter lists

A list is split into its parts, and each part is read for the name that it declares.
-/

namespace CodeQuality

/-!
## Splitting at commas

A list is split at the commas that stand outside of brackets of any kind. An angle bracket that
ends an arrow closes nothing, and closing brackets without an opening one are ignored.
-/

namespace Signature

open Text

/-- The character opens a bracket. -/
def isOpening (c : Char) : Bool :=
  c == '(' || c == '[' || c == '{' || c == '<'

/-- The character closes a bracket. -/
def isClosing (c : Char) : Bool :=
  c == ')' || c == ']' || c == '}' || c == '>'

/-- The depth behind a character, given the character before it. -/
def depthAfter (before : Char) (depth : Nat) (c : Char) : Nat :=
  if isOpening c then depth + 1
  else if c == '>' && (before == '=' || before == '-') then depth
  else if isClosing c then depth - 1
  else depth

/-- The slices of the text between its commas at depth zero. The slice being read begins at the
offset `start`, and the rest of the text at `offset`. -/
def piecesFrom (text : List Char) (before : Char) (depth start offset : Nat) :
    List Char → List (List Char)
  | [] => [dropBytes start text]
  | c :: rest =>
    if c == ',' && depth == 0 then
      slice text start offset :: piecesFrom text c depth (offset + 1) (offset + 1) rest
    else piecesFrom text c (depthAfter before depth c) start (offset + c.utf8Size) rest

/-- The parts of a list, trimmed, without the empty ones. -/
def splitTopLevel (text : List Char) : List (List Char) :=
  ((piecesFrom text '\x00' 0 0 0 text).map trim).filter fun part => !part.isEmpty

end Signature

/-!
## Parameters

The names that a parameter list declares. A default value and array brackets behind the name are
set aside; what is left holds the name as its first or its last identifier.
-/

/-- Which comes first in a parameter declaration. -/
inductive ParameterOrder where
  | typeFirst
  | nameFirst
  deriving DecidableEq, Repr

namespace Signature

open Text

/-- The declaration up to an equals sign outside of brackets that is not part of a comparison or
an arrow. The part read so far is kept backwards. -/
def beforeDefault (depth : Nat) (read : List Char) : List Char → List Char
  | [] => read.reverse
  | c :: rest =>
    if isOpening c then beforeDefault (depth + 1) (c :: read) rest
    else if isClosing c then beforeDefault (depth - 1) (c :: read) rest
    else if c == '=' && depth == 0
        && rest.head? != some '=' && rest.head? != some '>'
        && !read.head?.any (['=', '!', '<', '>'].contains ·) then read.reverse
    else beforeDefault depth (c :: read) rest

/-- The declaration without its default value, trimmed. -/
def stripDefault (declaration : List Char) : List Char :=
  trim (beforeDefault 0 [] declaration)

/-- The character can stand in an identifier. -/
def isIdentifierChar (c : Char) : Bool :=
  isAlphanumeric c || c == '_' || c == '$'

/-- The character can begin an identifier. -/
def isIdentifierStart (c : Char) : Bool :=
  isAlphabetic c || c == '_' || c == '$'

/-- The identifiers of a text in order. -/
def identifiers (text : List Char) : List (List Char) :=
  (text.splitOnP fun c => !isIdentifierChar c).filter fun token =>
    token.head?.any isIdentifierStart

/-- The text before the last opening square bracket, when there is one. -/
def beforeLastBracket? (text : List Char) : Option (List Char) :=
  match text.reverse.dropWhile (· != '[') with
  | [] => none
  | _ :: before => some before.reverse

/-- The declaration without the bracket groups at its end, at most `limit` of them. -/
def stripArraySuffixes : Nat → List Char → List Char
  | 0, declaration => trimEnd declaration
  | limit + 1, declaration =>
    let kept := trimEnd declaration
    if kept.getLast? == some ']' then
      match beforeLastBracket? kept with
      | some before => stripArraySuffixes limit before
      | none => kept
    else kept

/-- The declaration without the bracket groups at its end. -/
def stripArraySuffix (declaration : List Char) : List Char :=
  stripArraySuffixes declaration.length declaration

/-- Words before a parameter's name that are not the name. -/
def parameterModifiers : List String :=
  ["public", "private", "protected", "readonly", "override"]

/-- The name of one parameter declaration. -/
def parameterName? (order : ParameterOrder) (declaration : List Char) : Option String :=
  match order with
  | .typeFirst =>
    ((identifiers (stripArraySuffix (stripDefault declaration))).getLast?).map String.ofList
  | .nameFirst =>
    ((identifiers (stripDefault declaration)).map String.ofList).find? fun token =>
      !parameterModifiers.contains token

/-- The names that a parameter list declares, without the implicit ones of the language. -/
def parameters (order : ParameterOrder) (implicit : List String) (text : List Char) :
    List String :=
  ((splitTopLevel text).filterMap (parameterName? order)).filter fun name =>
    !implicit.contains name

end Signature

end CodeQuality
