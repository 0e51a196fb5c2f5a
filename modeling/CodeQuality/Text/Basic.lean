/-!
# Texts

A text is a list of characters. White space is told by code points, lines are cut at line feeds,
and positions count the bytes of the encoding.
-/

namespace CodeQuality.Text

/-!
## Sets of characters as code point ranges

A property of characters is tabulated as a list of closed ranges of code points in increasing
order. Membership is decided by looking the code point up in the list.
-/

/-- A closed range of code points, first and last. -/
abbrev CodeRange := Nat × Nat

/-- The code point lies in the range. -/
def CodeRange.holds (range : CodeRange) (code : Nat) : Bool :=
  range.1 ≤ code && code ≤ range.2

/-- The character lies in one of the ranges. -/
def inRanges (table : List CodeRange) (c : Char) : Bool :=
  table.any fun range => CodeRange.holds range c.toNat

/-!
## White space

The characters that separate words, and the trimming of a text by them.
-/

/-- The code points with the Unicode property `White_Space`. -/
def blankRanges : List CodeRange :=
  [(0x9, 0xD), (0x20, 0x20), (0x85, 0x85), (0xA0, 0xA0), (0x1680, 0x1680), (0x2000, 0x200A),
   (0x2028, 0x2029), (0x202F, 0x202F), (0x205F, 0x205F), (0x3000, 0x3000)]

/-- The character is white space. -/
def isBlank (c : Char) : Bool :=
  inRanges blankRanges c

/-- The text without its leading white space. -/
def trimStart (text : List Char) : List Char :=
  text.dropWhile isBlank

/-- The text without its trailing white space. -/
def trimEnd (text : List Char) : List Char :=
  (text.reverse.dropWhile isBlank).reverse

/-- The text without white space at either end. -/
def trim (text : List Char) : List Char :=
  trimEnd (trimStart text)

/-- The maximal stretches without white space, in order. -/
def words (text : List Char) : List (List Char) :=
  (text.splitBy fun a b => !isBlank a && !isBlank b).filter fun piece => !piece.any isBlank

/-!
## Lines of a text

A text is cut at every line feed. A final piece without a line feed is a line unless it is empty,
and a carriage return right before a line feed belongs to the line ending.
-/

/-- A line read backwards, without the carriage return that ends it. -/
def dropReturn : List Char → List Char
  | '\r' :: rest => rest
  | line => line

/-- The lines of a text whose current line has been read, backwards, up to here. -/
def linesAfter : List Char → List Char → List (List Char)
  | current, [] => if current.isEmpty then [] else [current.reverse]
  | current, c :: rest =>
    if c = '\n' then (dropReturn current).reverse :: linesAfter [] rest
    else linesAfter (c :: current) rest

/-- The lines of a text in order, without their endings. -/
def lines (text : List Char) : List (List Char) :=
  linesAfter [] text

/-!
## Byte offsets

Positions in a text count the bytes of its UTF-8 encoding. An offset is a boundary when it falls
between two characters, and only boundaries are places where a text may be cut.
-/

/-- The number of bytes of the UTF-8 encoding. -/
def byteLength : List Char → Nat
  | [] => 0
  | c :: rest => c.utf8Size + byteLength rest

/-- The UTF-8 encoding. -/
def encode (text : List Char) : List UInt8 :=
  text.flatMap String.utf8EncodeChar

/-- The offset falls between two characters, or at either end. -/
def isBoundary : List Char → Nat → Bool
  | _, 0 => true
  | [], _ + 1 => false
  | c :: rest, offset + 1 => c.utf8Size ≤ offset + 1 && isBoundary rest (offset + 1 - c.utf8Size)

/-- The text from a byte offset on. -/
def dropBytes : Nat → List Char → List Char
  | 0, text => text
  | _ + 1, [] => []
  | offset + 1, c :: rest => dropBytes (offset + 1 - c.utf8Size) rest

/-- The text before a byte offset. -/
def takeBytes : Nat → List Char → List Char
  | 0, _ => []
  | _ + 1, [] => []
  | offset + 1, c :: rest => c :: takeBytes (offset + 1 - c.utf8Size) rest

/-- The text between two byte offsets. -/
def slice (text : List Char) (start stop : Nat) : List Char :=
  takeBytes (stop - start) (dropBytes start text)

/-!
## Searching a text

The first occurrence of one text in another, as a byte offset.
-/

/-- The offset of the first occurrence of `needle`, where the text stands at `offset`. -/
def findFrom (needle : List Char) : Nat → List Char → Option Nat
  | offset, [] => if needle.isEmpty then some offset else none
  | offset, c :: rest =>
    if needle.isPrefixOf (c :: rest) then some offset
    else findFrom needle (offset + c.utf8Size) rest

/-- The byte offset of the first occurrence of `needle` in the text. -/
def find? (needle text : List Char) : Option Nat :=
  findFrom needle 0 text

/-- The text holds `needle`. -/
def holds (text needle : List Char) : Bool :=
  (find? needle text).isSome

/-- The least byte offset at which one of the stops occurs, or the length of the text. -/
def firstOf (stops : List (List Char)) (text : List Char) : Nat :=
  ((stops.filterMap fun stop => find? stop text).min?).getD (byteLength text)

/-- The rest of the text behind the given beginning. -/
def dropPrefix? : List Char → List Char → Option (List Char)
  | [], text => some text
  | _ :: _, [] => none
  | a :: more, c :: rest => if a = c then dropPrefix? more rest else none

/-- The text without the leading characters of a set. -/
def dropLeading (accepts : Char → Bool) (text : List Char) : List Char :=
  text.dropWhile accepts

/-- The text without the trailing characters of a set. -/
def dropTrailing (accepts : Char → Bool) (text : List Char) : List Char :=
  (text.reverse.dropWhile accepts).reverse

/-- The text behind the last occurrence of `mark`, or the whole text. -/
def afterLast (mark : List Char) : List Char → List Char
  | [] => []
  | c :: rest =>
    if holds rest mark then afterLast mark rest
    else (dropPrefix? mark (c :: rest)).getD (c :: rest)

end CodeQuality.Text
