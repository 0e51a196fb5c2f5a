import CodeQuality.Pattern.Search
import CodeQuality.Rules.Basic
import CodeQuality.Scan.Code
import CodeQuality.Scan.Lines
import CodeQuality.Text.Basic

/-!
# Source texts

A text together with what the extraction looks up in it: its bytes and the beginnings of its
lines. From here come the captures of a match, the parameter list behind a name and the body
behind a signature.
-/

namespace CodeQuality

open Text

/-- A text prepared for extraction. -/
structure Source where
  chars : List Char
  bytes : List UInt8
  index : Scan.LineIndex

namespace Source

/-- Prepare a text. -/
def ofText (text : List Char) : Source :=
  let bytes := encode text
  { chars := text, bytes := bytes, index := Scan.LineIndex.ofBytes bytes }

/-- The line of an offset. -/
def lineOf (source : Source) (offset : Nat) : Nat :=
  source.index.lineOf offset

/-- The text of a span. -/
def textOf (source : Source) (span : Span) : List Char :=
  slice source.chars span.start span.stop

/-- The text that a match records for a label. -/
def capture? (source : Source) (found : Match) (label : Label) : Option (List Char) :=
  (found.span? label).map source.textOf

/-- The marks that end a signature before its parameter list. -/
def signatureStops : List (List Char) :=
  [['{'], [';'], ['=', '>'], ['\n', '\n']]

/-- The offset of the parenthesis that opens the parameter list behind `start`, unless the
signature ends before it. -/
def parameterListOpen? (source : Source) (start : Nat) : Option Nat :=
  let rest := dropBytes start source.chars
  match find? ['('] rest with
  | none => none
  | some opening => if opening < firstOf signatureStops rest then some (start + opening) else none

/-- A parameter list between its parentheses. -/
def parameterList? (source : Source) (style : CommentStyle) (start : Nat) : Option Span :=
  match source.parameterListOpen? start with
  | none => none
  | some opening =>
    (Scan.matchingParen source.bytes opening style).map fun closing => ⟨opening, closing⟩

/-- A body with the line it ends on. -/
structure Body where
  text : List Char
  endLine : Nat

/-- The body of the declaration that begins at `start`. By indentation, it needs an offset in the
last line of the header. -/
def bodyAt (source : Source) (rules : Rules) (start : Nat) (headerEnd : Option Nat) : Body :=
  let bodiless : Body := ⟨[], source.lineOf start⟩
  match rules.body with
  | .braces =>
    match Scan.braceBodyEnd source.bytes start rules.comments with
    | some closing => ⟨slice source.chars start (closing + 1), source.lineOf closing⟩
    | none => bodiless
  | .indentation =>
    match headerEnd with
    | some headerEnd =>
      let stop := Scan.indentedBodyEnd source.chars start headerEnd
      ⟨slice source.chars start stop, source.lineOf (max (stop - 1) start)⟩
    | none => bodiless

end Source

end CodeQuality
