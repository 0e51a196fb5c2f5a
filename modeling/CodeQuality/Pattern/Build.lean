import CodeQuality.Pattern.Basic

/-!
# Building patterns

Short names for the pieces that signatures are made of: words, blanks, names, bracketed lists and
choices between words.
-/

namespace CodeQuality.Pattern

/-- The characters of a string. -/
def word (text : String) : Pattern :=
  literal text.toList

/-- The patterns one after the other. -/
def inOrder : List Pattern → Pattern
  | [] => literal []
  | [last] => last
  | first :: others => seq first (inOrder others)

/-- The first pattern that fits. -/
def choice : List Pattern → Pattern
  | [] => one fun _ => false
  | [last] => last
  | first :: others => alt first (choice others)

/-- One of the words, earlier ones preferred. -/
def oneOf (options : List String) : Pattern :=
  choice (options.map word)

/-- At least one accepted character, as many as possible. -/
def runOf (accepts : Char → Bool) : Pattern :=
  seq (one accepts) (run accepts)

/-- At least one accepted character, as few as possible. -/
def fewestOf (accepts : Char → Bool) : Pattern :=
  seq (one accepts) (fewest accepts)

/-- A space or a tab. -/
def isGap (c : Char) : Bool :=
  c == ' ' || c == '\t'

/-- Spaces and tabs, perhaps none. -/
def gap : Pattern :=
  run isGap

/-- At least one space or tab. -/
def someGap : Pattern :=
  runOf isGap

/-- White space of any kind, perhaps none. -/
def space : Pattern :=
  run Text.isBlank

/-- At least one character of white space. -/
def someSpace : Pattern :=
  runOf Text.isBlank

/-- The character is none of the given ones. -/
def noneOf (excluded : List Char) (c : Char) : Bool :=
  !excluded.contains c

/-- The character is one of the given ones. -/
def anyOf (included : List Char) (c : Char) : Bool :=
  included.contains c

/-- The character can stand in a word or is one of the given ones. -/
def wordOr (included : List Char) (c : Char) : Bool :=
  Text.isWord c || included.contains c

/-- The character can begin a name. -/
def isNameStart (c : Char) : Bool :=
  c.isAlpha || c == '_'

/-- An ASCII letter or underscore and then word characters. -/
def identifier : Pattern :=
  seq (one isNameStart) (run Text.isWord)

/-- A name that may hold dollar signs. -/
def dollarIdentifier : Pattern :=
  seq (one fun c => isNameStart c || c == '$') (run (wordOr ['$']))

/-- An opening character, characters of the set, and a closing character. -/
def enclosed (opening : Char) (accepts : Char → Bool) (closing : Char) : Pattern :=
  inOrder [literal [opening], run accepts, literal [closing]]

/-- A list in angle brackets on one line. -/
def angles : Pattern :=
  enclosed '<' (noneOf ['>', '\n']) '>'

/-- A list in square brackets on one line. -/
def brackets : Pattern :=
  enclosed '[' (noneOf [']', '\n']) ']'

/-- The pattern, if it fits, and then a gap. -/
def maybeThenGap (body : Pattern) : Pattern :=
  opt (seq body someGap)

/-- Any number of the words, each with a gap behind it. -/
def manyWords (options : List String) : Pattern :=
  many (seq (oneOf options) someGap)

end CodeQuality.Pattern
