import CodeQuality.Text.Basic
import CodeQuality.Text.Word

/-!
# Patterns

A pattern describes a stretch of text together with what stands around it. Its meaning is the
list of all places where a match that begins at a given cursor can end, the preferred one first:
a run prefers to be long, a reluctant run to be short, and an alternative prefers its first
branch. Named groups record the stretch that their part of the pattern covers.
-/

namespace CodeQuality

/-- What a named group of a pattern stands for. -/
inductive Label where
  | access
  | staticWord
  | constWord
  | returnType
  | declaredType
  | name
  | heritage
  | bases
  | interfaces
  deriving DecidableEq, Repr

/-- A stretch of text between two byte offsets. -/
structure Span where
  start : Nat
  stop : Nat
  deriving DecidableEq, Repr

/-- A place in a text, with the groups recorded on the way there. -/
structure Cursor where
  /-- The character right before the place. -/
  before : Option Char
  /-- The text from the place on. -/
  rest : List Char
  /-- The byte offset of the place. -/
  offset : Nat
  /-- The groups recorded so far, the latest first. -/
  groups : List (Label × Span) := []

namespace Cursor

/-- The beginning of a text. -/
def ofText (text : List Char) : Cursor where
  before := none
  rest := text
  offset := 0

/-- The place behind the character `c`, where the text goes on with `rest`. -/
def past (cursor : Cursor) (c : Char) (rest : List Char) : Cursor where
  before := some c
  rest := rest
  offset := cursor.offset + c.utf8Size
  groups := cursor.groups

/-- The place has the beginning of the text or a line feed before it. -/
def atLineStart (cursor : Cursor) : Bool :=
  match cursor.before with
  | none => true
  | some c => c == '\n'

/-- The place has the end of the text or a line feed behind it. -/
def atLineEnd (cursor : Cursor) : Bool :=
  match cursor.rest with
  | [] => true
  | c :: _ => c == '\n'

/-- Exactly one of the neighbours of the place is a word character. -/
def atWordEdge (cursor : Cursor) : Bool :=
  cursor.before.any Text.isWord != cursor.rest.head?.any Text.isWord

/-- The places reached by reading accepted characters, the furthest first, ahead of `nearer`. -/
def reach (accepts : Char → Bool) : List Char → Cursor → List Cursor → List Cursor
  | [], cursor, nearer => cursor :: nearer
  | c :: rest, cursor, nearer =>
    if accepts c then reach accepts rest (cursor.past c rest) (cursor :: nearer)
    else cursor :: nearer

/-- The place behind the given characters, when the text goes on with them. -/
def skip? : List Char → Cursor → Option Cursor
  | [], cursor => some cursor
  | a :: more, cursor =>
    match cursor.rest with
    | [] => none
    | c :: rest => if a = c then skip? more (cursor.past c rest) else none

/-- The span recorded for a label. -/
def span? (cursor : Cursor) (label : Label) : Option Span :=
  (cursor.groups.find? fun group => group.1 = label).map Prod.snd

end Cursor

/-- A description of stretches of text. -/
inductive Pattern where
  /-- One accepted character. -/
  | one (accepts : Char → Bool)
  /-- The given characters. -/
  | literal (chars : List Char)
  /-- Any number of accepted characters, as many as possible. -/
  | run (accepts : Char → Bool)
  /-- Any number of accepted characters, as few as possible. -/
  | fewest (accepts : Char → Bool)
  /-- One pattern and then the other. -/
  | seq (first second : Pattern)
  /-- One pattern or else the other. -/
  | alt (first second : Pattern)
  /-- The pattern, or else nothing. -/
  | opt (body : Pattern)
  /-- Any number of stretches in a row, as many as possible. -/
  | many (body : Pattern)
  /-- The pattern, with the stretch it covers recorded. -/
  | group (label : Label) (body : Pattern)
  /-- The beginning of a line. -/
  | lineStart
  /-- The end of a line. -/
  | lineEnd
  /-- The end of the text. -/
  | textEnd
  /-- The beginning or the end of a word. -/
  | wordEdge

namespace Pattern

/-- The ends of up to `limit` repetitions, each of which has to move on. -/
def repeats (step : Cursor → List Cursor) : Nat → Cursor → List Cursor
  | 0, cursor => [cursor]
  | limit + 1, cursor =>
    ((step cursor).filter fun next => cursor.offset < next.offset).flatMap (repeats step limit)
      ++ [cursor]

/-- All ends of matches that begin at the cursor, the preferred one first. -/
def ends : Pattern → Cursor → List Cursor
  | one accepts, cursor =>
    match cursor.rest with
    | [] => []
    | c :: rest => if accepts c then [cursor.past c rest] else []
  | literal chars, cursor => (cursor.skip? chars).toList
  | run accepts, cursor => Cursor.reach accepts cursor.rest cursor []
  | fewest accepts, cursor => (Cursor.reach accepts cursor.rest cursor []).reverse
  | seq first second, cursor => (ends first cursor).flatMap (ends second)
  | alt first second, cursor => ends first cursor ++ ends second cursor
  | opt body, cursor => ends body cursor ++ [cursor]
  | many body, cursor => repeats (ends body) cursor.rest.length cursor
  | group label body, cursor =>
    (ends body cursor).map fun next =>
      { next with groups := (label, ⟨cursor.offset, next.offset⟩) :: next.groups }
  | lineStart, cursor => if cursor.atLineStart then [cursor] else []
  | lineEnd, cursor => if cursor.atLineEnd then [cursor] else []
  | textEnd, cursor => if cursor.rest.isEmpty then [cursor] else []
  | wordEdge, cursor => if cursor.atWordEdge then [cursor] else []

end Pattern

end CodeQuality
