/-!
# Scanning code

Scans for brackets look at the bytes of a text outside of comments and string literals.
-/

namespace CodeQuality

/-!
## Comment styles

How a language marks comments.
-/

/-- The marks that begin and end comments. -/
inductive CommentStyle where
  /-- Two slashes up to the end of the line, or a block between a slash and a star and their
  reverse. -/
  | slashes
  /-- A hash sign up to the end of the line. -/
  | hash
  deriving DecidableEq, Repr

namespace CommentStyle

/-- The line begins with a comment mark. -/
def marks (style : CommentStyle) (line : List Char) : Bool :=
  match style with
  | slashes => ['/', '/'].isPrefixOf line || ['/', '*'].isPrefixOf line
  | hash => ['#'].isPrefixOf line

end CommentStyle

/-!
## Literals and comments in a byte stream

Scans for brackets look at the bytes of a text and pass over string literals and comments as a
whole. A literal or comment is measured from its first byte. All marks are ASCII, so no measure
depends on where the characters of the text begin.
-/

namespace Scan

/-- The byte of an ASCII character. -/
def byte (c : Char) : UInt8 :=
  c.toUInt8

/-- The byte of a double quote. -/
def doubleQuote : UInt8 := 0x22

/-- The byte of a single quote. -/
def singleQuote : UInt8 := 0x27

/-- The byte of a grave accent. -/
def backQuote : UInt8 := 0x60

/-- The bytes up to a line feed, which is not counted. -/
def lineLength : List UInt8 → Nat
  | [] => 0
  | b :: rest => if b = byte '\n' then 0 else lineLength rest + 1

/-- The bytes up to and including a star and a slash, or all of them. -/
def blockLength : List UInt8 → Nat
  | [] => 0
  | a :: rest =>
    if a = byte '*' && rest.head? == some (byte '/') then 2 else blockLength rest + 1

/-- The bytes behind an opening quote that belong to its literal. A backslash takes the next byte
with it, and the end of the line ends the literal. -/
def quotedLength (quote : UInt8) : List UInt8 → Nat
  | [] => 0
  | [b] => if b = byte '\n' then 0 else 1
  | b :: c :: rest =>
    if b = byte '\\' then quotedLength quote rest + 2
    else if b = quote then 1
    else if b = byte '\n' then 0
    else quotedLength quote (c :: rest) + 1

/-- The bytes behind an opening quote up to and including the next one. -/
def rawLength (quote : UInt8) : List UInt8 → Nat
  | [] => 0
  | b :: rest => if b = quote then 1 else rawLength quote rest + 1

/-- The bytes behind an opening double quote up to and including the next one that is not
doubled. -/
def verbatimLength : List UInt8 → Nat
  | [] => 0
  | [_] => 1
  | b :: c :: rest =>
    if b = doubleQuote then if c = doubleQuote then verbatimLength rest + 2 else 1
    else verbatimLength (c :: rest) + 1

/-- The length of the literal or comment that begins at the first byte, or zero when none does.
The byte before decides whether a double quote begins a verbatim literal. -/
def triviaLength (style : CommentStyle) (before : Option UInt8) : List UInt8 → Nat
  | [] => 0
  | b :: rest =>
    if b = doubleQuote then
      if before = some (byte '@') then verbatimLength rest + 1 else quotedLength b rest + 1
    else if b = singleQuote then quotedLength b rest + 1
    else if b = backQuote then rawLength b rest + 1
    else
      match style with
      | .hash => if b = byte '#' then lineLength rest + 1 else 0
      | .slashes =>
        if b = byte '/' then
          if rest.head? == some (byte '/') then lineLength rest + 1
          else if rest.head? == some (byte '*') then blockLength rest.tail + 2
          else 0
        else 0

/-!
## Code positions

A scan walks through the bytes of a text and stops at each one at which no literal or comment
begins. These are the code positions. A bracket search is a machine that reads the bytes at the
code positions one by one until it can give its answer.
-/

/-- The code positions with their bytes, when `skip` more bytes belong to a literal or comment
and the scan stands at `offset`. -/
def codeFrom (style : CommentStyle) :
    Nat → Option UInt8 → Nat → List UInt8 → List (Nat × UInt8)
  | _, _, _, [] => []
  | skip + 1, _, offset, b :: rest => codeFrom style skip (some b) (offset + 1) rest
  | 0, before, offset, b :: rest =>
    match triviaLength style before (b :: rest) with
    | n + 1 => codeFrom style n (some b) (offset + 1) rest
    | 0 => (offset, b) :: codeFrom style 0 (some b) (offset + 1) rest

/-- The byte right before an offset. -/
def byteBefore (bytes : List UInt8) : Nat → Option UInt8
  | 0 => none
  | offset + 1 => bytes[offset]?

/-- The code positions that a scan from `start` visits, with the bytes that stand there. -/
def codePositions (bytes : List UInt8) (start : Nat) (style : CommentStyle) :
    List (Nat × UInt8) :=
  codeFrom style 0 (byteBefore bytes start) start (bytes.drop start)

/-- What a search makes of one byte of code. -/
inductive Step (σ : Type) where
  /-- Read on in the given state. -/
  | onward (state : σ)
  /-- The search ends at this byte. -/
  | found
  /-- There is nothing to be found. -/
  | absent

/-- Run a search over the code positions, when `skip` more bytes belong to a literal or comment
and the scan stands at `offset`. -/
def searchFrom {σ : Type} (style : CommentStyle) (step : σ → UInt8 → Step σ) :
    Nat → Option UInt8 → Nat → List UInt8 → σ → Option Nat
  | _, _, _, [], _ => none
  | skip + 1, _, offset, b :: rest, state =>
    searchFrom style step skip (some b) (offset + 1) rest state
  | 0, before, offset, b :: rest, state =>
    match triviaLength style before (b :: rest) with
    | n + 1 => searchFrom style step n (some b) (offset + 1) rest state
    | 0 =>
      match step state b with
      | .onward next => searchFrom style step 0 (some b) (offset + 1) rest next
      | .found => some offset
      | .absent => none

/-- Run a search over the code positions from `start` on. -/
def search {σ : Type} (step : σ → UInt8 → Step σ) (bytes : List UInt8) (start : Nat)
    (style : CommentStyle) (state : σ) : Option Nat :=
  searchFrom style step 0 (byteBefore bytes start) start (bytes.drop start) state

/-!
## Matching brackets

The end of a body in braces and the end of a parameter list in parentheses. Both are found by
counting brackets at code positions.
-/

/-- Where a search for a body stands: before it, behind some open parentheses, or in it, behind
some open braces. -/
inductive BodyState where
  | outside (parens : Nat)
  | inside (depth : Nat)
  deriving DecidableEq, Repr

/-- A brace outside of parentheses opens the body, a semicolon there shows that none follows, and
the brace that balances the opening one ends it. -/
def bodyStep : BodyState → UInt8 → Step BodyState
  | .outside parens, b =>
    if b = byte '(' then .onward (.outside (parens + 1))
    else if b = byte ')' then .onward (.outside (parens - 1))
    else if b = byte ';' && parens == 0 then .absent
    else if b = byte '{' && parens == 0 then .onward (.inside 1)
    else .onward (.outside parens)
  | .inside depth, b =>
    if b = byte '{' then .onward (.inside (depth + 1))
    else if b = byte '}' then if depth - 1 = 0 then .found else .onward (.inside (depth - 1))
    else .onward (.inside depth)

/-- The offset of the brace that ends the first body at or behind `start`. -/
def braceBodyEnd (bytes : List UInt8) (start : Nat) (style : CommentStyle) : Option Nat :=
  search bodyStep bytes start style (.outside 0)

/-- A closing parenthesis ends the list when no more than one is open. -/
def parenStep (depth : Nat) (b : UInt8) : Step Nat :=
  if b = byte '(' then .onward (depth + 1)
  else if b = byte ')' then if depth - 1 = 0 then .found else .onward (depth - 1)
  else .onward depth

/-- The offset of the parenthesis that closes the one at `opening`. -/
def matchingParen (bytes : List UInt8) (opening : Nat) (style : CommentStyle) : Option Nat :=
  search parenStep bytes opening style 0

end Scan

end CodeQuality
