import CodeQuality.Pattern.Basic

/-!
# Searching for a pattern

A match begins at the first place where the pattern matches at all, and ends at the pattern's
preferred end from there. All matches of a text are found from left to right, each behind the one
before it, so that no two of them overlap.
-/

namespace CodeQuality

/-- A stretch of text that a pattern covers. -/
structure Match where
  /-- The byte offset where the stretch begins. -/
  start : Nat
  /-- The place where it ends, with the groups recorded in between. -/
  finish : Cursor

namespace Match

/-- The byte offset where the stretch ends. -/
def stop (found : Match) : Nat :=
  found.finish.offset

/-- The span recorded for a label. -/
def span? (found : Match) (label : Label) : Option Span :=
  found.finish.span? label

end Match

namespace Pattern

/-- The first match that begins at or behind the place at `offset` behind `before`. -/
def findFrom (pattern : Pattern) : Option Char → Nat → List Char → Option Match
  | before, offset, [] =>
    (pattern.ends ⟨before, [], offset, []⟩).head?.map fun finish => ⟨offset, finish⟩
  | before, offset, c :: rest =>
    match (pattern.ends ⟨before, c :: rest, offset, []⟩).head? with
    | some finish => some ⟨offset, finish⟩
    | none => pattern.findFrom (some c) (offset + c.utf8Size) rest

/-- The first match in a text. -/
def find? (pattern : Pattern) (text : List Char) : Option Match :=
  pattern.findFrom none 0 text

/-- The pattern matches somewhere in the text. -/
def occursIn (pattern : Pattern) (text : List Char) : Bool :=
  (pattern.find? text).isSome

/-- Up to `limit` matches from the cursor on. After an empty match the search goes on one
character further. -/
def matchesFrom (pattern : Pattern) : Nat → Cursor → List Match
  | 0, _ => []
  | limit + 1, cursor =>
    match pattern.findFrom cursor.before cursor.offset cursor.rest with
    | none => []
    | some found =>
      found ::
        if found.start < found.stop then pattern.matchesFrom limit found.finish
        else
          match found.finish.rest with
          | [] => []
          | c :: rest => pattern.matchesFrom limit (found.finish.past c rest)

/-- All matches in a text, from left to right and without overlaps. -/
def matchesIn (pattern : Pattern) (text : List Char) : List Match :=
  pattern.matchesFrom (text.length + 1) (Cursor.ofText text)

/-- The number of matches in a text. -/
def countIn (pattern : Pattern) (text : List Char) : Nat :=
  (pattern.matchesIn text).length

end Pattern

end CodeQuality
