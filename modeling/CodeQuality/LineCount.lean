import CodeQuality.Scan.Code
import CodeQuality.Text.Basic

/-!
# Counting lines

Every line of a text is blank, comment or code. A block comment that opens at the beginning of a
line and does not close on it makes comments of the lines behind it, up to and including the one
that holds its end.
-/

namespace CodeQuality

open Text

/-- What a line holds. -/
inductive LineKind where
  | blank
  | comment
  | code
  deriving DecidableEq, Repr

/-- The kind of a trimmed line, and whether a block comment is open behind it, given whether one
is open before it. -/
def classifyLine (style : CommentStyle) (inBlock : Bool) (line : List Char) : LineKind × Bool :=
  if line.isEmpty then (.blank, inBlock)
  else
    match style with
    | .hash => (if ['#'].isPrefixOf line then .comment else .code, inBlock)
    | .slashes =>
      if inBlock then (.comment, !holds line ['*', '/'])
      else
        match dropPrefix? ['/', '*'] line with
        | some rest => (.comment, !holds rest ['*', '/'])
        | none => (if ['/', '/'].isPrefixOf line then .comment else .code, false)

/-- The kinds of lines in order, given whether a block comment is open before the first one. -/
def lineKinds (style : CommentStyle) : Bool → List (List Char) → List LineKind
  | _, [] => []
  | inBlock, line :: rest =>
    let (kind, next) := classifyLine style inBlock (trim line)
    kind :: lineKinds style next rest

/-- The numbers of lines of each kind. -/
structure LineCount where
  total : Nat := 0
  code : Nat := 0
  comment : Nat := 0
  blank : Nat := 0
  deriving DecidableEq, Repr

namespace LineCount

/-- The counts with one more line. -/
def add (count : LineCount) (kind : LineKind) : LineCount :=
  match kind with
  | .blank => { count with total := count.total + 1, blank := count.blank + 1 }
  | .comment => { count with total := count.total + 1, comment := count.comment + 1 }
  | .code => { count with total := count.total + 1, code := count.code + 1 }

/-- The counts of a text. -/
def ofText (text : List Char) (style : CommentStyle) : LineCount :=
  (lineKinds style false (lines text)).foldl add {}

/-- The share of comments among the lines that are not blank, zero when there is none. -/
def commentRatio (count : LineCount) : Float :=
  let denominator := count.code + count.comment
  if denominator = 0 then 0 else Float.ofNat count.comment / Float.ofNat denominator

end LineCount

end CodeQuality
