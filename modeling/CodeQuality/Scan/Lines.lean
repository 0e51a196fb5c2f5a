import CodeQuality.Scan.Code
import CodeQuality.Text.Basic

/-!
# Scanning lines

Line numbers, and blocks that are told by the indentation of their lines.
-/

namespace CodeQuality.Scan

/-!
## Line numbers of offsets

The offsets at which lines begin are tabulated once. The line of an offset is then found by
bisection: it is the number of lines that begin at or before it.
-/

/-- The offsets at which the lines behind each line feed begin, from `offset` on. -/
def lineStartsFrom : Nat → List UInt8 → List Nat
  | _, [] => []
  | offset, b :: rest =>
    if b = byte '\n' then (offset + 1) :: lineStartsFrom (offset + 1) rest
    else lineStartsFrom (offset + 1) rest

/-- The beginnings of the lines of a text. -/
structure LineIndex where
  starts : Array Nat

namespace LineIndex

/-- The index of a text by its bytes. -/
def ofBytes (bytes : List UInt8) : LineIndex where
  starts := (0 :: lineStartsFrom 0 bytes).toArray

/-- The number of beginnings at or before the offset, given that all of the first `low` are and
none from `high` on is. -/
def bisect (starts : Array Nat) (offset low high : Nat) : Nat :=
  if low < high then
    let middle := (low + high) / 2
    if starts.getD middle 0 ≤ offset then bisect starts offset (middle + 1) high
    else bisect starts offset low middle
  else low
termination_by high - low

/-- The number of the line that holds the offset, counted from one. -/
def lineOf (index : LineIndex) (offset : Nat) : Nat :=
  bisect index.starts offset 0 index.starts.size

end LineIndex

/-!
## Blocks by indentation

A block begins with a header and takes in the lines behind it that are indented deeper than the
header. Blank lines and lines with a hash comment neither end the block nor extend it.
-/

open Text

/-- The number of bytes of leading white space. -/
def indentWidth (line : List Char) : Nat :=
  byteLength (line.takeWhile isBlank)

/-- The characters up to the next line feed. -/
def lineHead (text : List Char) : List Char :=
  text.takeWhile (· != '\n')

/-- The text from the next line feed on. -/
def lineTail (text : List Char) : List Char :=
  text.dropWhile (· != '\n')

theorem length_lineTail_le (text : List Char) : (lineTail text).length ≤ text.length :=
  (List.dropWhile_sublist _).length_le

/-- The line is blank or begins with a hash sign. -/
def isIdleLine (line : List Char) : Bool :=
  match trim line with
  | [] => true
  | c :: _ => c == '#'

/-- The end of the block so far is `blockEnd`, and the text from offset `pos` on is read line by
line from a line feed on. -/
def blockEndFrom (base blockEnd pos : Nat) : List Char → Nat
  | [] => blockEnd
  | _ :: rest =>
    let line := lineHead rest
    let lineEnd := pos + 1 + byteLength line
    if isIdleLine line then blockEndFrom base blockEnd lineEnd (lineTail rest)
    else if indentWidth line ≤ base then blockEnd
    else blockEndFrom base lineEnd lineEnd (lineTail rest)
termination_by text => text.length
decreasing_by all_goals exact Nat.lt_succ_of_le (length_lineTail_le _)

/-- The end offset of the block whose header begins at `start` and holds the offset `headerEnd`
in its last line. -/
def indentedBodyEnd (text : List Char) (start headerEnd : Nat) : Nat :=
  let cut := min headerEnd (byteLength text)
  let rest := dropBytes cut text
  let lineEnd := cut + byteLength (lineHead rest)
  blockEndFrom (indentWidth (dropBytes start text)) lineEnd lineEnd (lineTail rest)

end CodeQuality.Scan
