import CodeQuality.Decimal
import CodeQuality.Value

/-!
# Writing JSON

Values are written on one line, or over several lines with two blanks of indentation for each
level. Numbers have the fewest digits that read back, are written in positional notation when
their first digit stands between the fifth place behind the point and the sixteenth before it,
and keep a fraction when they are floating point values. Values that are no finite numbers are
written as null.
-/

namespace CodeQuality.Json

open Decimal

/-- A hexadecimal digit in lower case. -/
def hexChar (n : Nat) : Char :=
  Nat.digitChar n

/-- The characters that stand for one character inside a string. -/
def escape (c : Char) : List Char :=
  if c == Char.ofNat 0x22 then ['\\', c]
  else if c == '\\' then ['\\', '\\']
  else if c == '\n' then ['\\', 'n']
  else if c == '\r' then ['\\', 'r']
  else if c == '\t' then ['\\', 't']
  else if c == Char.ofNat 8 then ['\\', 'b']
  else if c == Char.ofNat 12 then ['\\', 'f']
  else if c.toNat < 0x20 then
    ['\\', 'u', '0', '0', hexChar (c.toNat / 16), hexChar (c.toNat % 16)]
  else [c]

/-- A text in quotes. -/
def quoted (text : String) : String :=
  "\"" ++ String.ofList (text.toList.flatMap escape) ++ "\""

/-- The exponent with its sign. -/
def exponentText (exponent : Int) : String :=
  if exponent < 0 then "-" ++ toString (-exponent).toNat else "+" ++ toString exponent.toNat

/-- The digits in scientific notation, where the first one has the given power of ten. -/
def scientific (digits : List Char) (exponent : Int) : String :=
  match digits with
  | [] => "0.0"
  | [only] => String.ofList [only] ++ "e" ++ exponentText exponent
  | first :: others => String.ofList (first :: '.' :: others) ++ "e" ++ exponentText exponent

/-- A floating point value. -/
def number (x : Float) : String :=
  match magnitude x with
  | .notANumber => "null"
  | .infinite => "null"
  | .finite mantissa exponent =>
    let decimal := shortest mantissa exponent
    let leading := decimal.point - 1
    if decimal.digits.isEmpty then signOf x ++ "0.0"
    else if -5 ≤ leading && leading < 16 then
      let fraction := fractionPart decimal
      signOf x ++ String.ofList (wholePart decimal) ++ "." ++
        if fraction.isEmpty then "0" else String.ofList fraction
    else signOf x ++ scientific decimal.digits leading

mutual

/-- The text with a value behind it, on one line. -/
def appendCompact (out : String) : Value → String
  | .null => out ++ "null"
  | .bool value => out ++ if value then "true" else "false"
  | .int value => out ++ toString value
  | .float value => out ++ number value
  | .text value => out ++ quoted value
  | .moment | .unreadable => out ++ "null"
  | .list items => appendItems (out ++ "[") items ++ "]"
  | .table entries => appendEntries (out ++ "\x7b") entries ++ "\x7d"

/-- The text with the items of a list behind it and commas between them. -/
def appendItems (out : String) : List Value → String
  | [] => out
  | [item] => appendCompact out item
  | item :: rest => appendItems (appendCompact out item ++ ",") rest

/-- The text with the entries of an object behind it and commas between them. -/
def appendEntries (out : String) : List (String × Value) → String
  | [] => out
  | [(key, value)] => appendCompact (out ++ quoted key ++ ":") value
  | (key, value) :: rest =>
    appendEntries (appendCompact (out ++ quoted key ++ ":") value ++ ",") rest

end

/-- A value on one line. -/
def compact (value : Value) : String :=
  appendCompact "" value

/-- A line break and the indentation of a level. -/
def lineBreak (level : Nat) : String :=
  "\n" ++ String.ofList (List.replicate (2 * level) ' ')

mutual

/-- The text with a value behind it, over several lines, where the value stands at a level. -/
def appendPretty (level : Nat) (out : String) : Value → String
  | .list [] => out ++ "[]"
  | .list items => prettyItems (level + 1) (out ++ "[") items ++ lineBreak level ++ "]"
  | .table [] => out ++ "\x7b\x7d"
  | .table entries => prettyEntries (level + 1) (out ++ "\x7b") entries ++ lineBreak level ++ "\x7d"
  | .null => out ++ "null"
  | .bool value => out ++ if value then "true" else "false"
  | .int value => out ++ toString value
  | .float value => out ++ number value
  | .text value => out ++ quoted value
  | .moment | .unreadable => out ++ "null"

/-- The text with the items of a list behind it, each on lines of its own. -/
def prettyItems (level : Nat) (out : String) : List Value → String
  | [] => out
  | [item] => appendPretty level (out ++ lineBreak level) item
  | item :: rest =>
    prettyItems level (appendPretty level (out ++ lineBreak level) item ++ ",") rest

/-- The text with the entries of an object behind it, each on lines of its own. -/
def prettyEntries (level : Nat) (out : String) : List (String × Value) → String
  | [] => out
  | [(key, value)] => appendPretty level (out ++ lineBreak level ++ quoted key ++ ": ") value
  | (key, value) :: rest =>
    prettyEntries level
      (appendPretty level (out ++ lineBreak level ++ quoted key ++ ": ") value ++ ",") rest

end

/-- A value over several lines. -/
def pretty (value : Value) : String :=
  appendPretty 0 "" value

end CodeQuality.Json
